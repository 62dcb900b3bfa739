import Mathlib.Order.WellFounded
import PagedTables.Proofs.Codec.Recode
import PagedTables.Proofs.Storage.RoundTrip

/-! What becomes of an image that is read and written again. The bits of its slots and the values in
its used slots are kept; every other bit comes out zero. -/

namespace PagedTables

namespace HeapPage

variable {id : PageId} {schema : Schema} {layout : PageLayout} {data : Bytes} {slot offset : Nat}

def InSlot (layout : PageLayout) (slot offset : Nat) : Prop :=
  layout.headerLength + slot * layout.tupleWidth ≤ offset ∧
    offset < layout.headerLength + slot * layout.tupleWidth + layout.tupleWidth

theorem InSlot.unique {other : Nat} (here : InSlot layout slot offset)
    (there : InSlot layout other offset) : slot = other := by
  have order : ∀ a b, InSlot layout a offset → InSlot layout b offset → ¬a < b := by
    intro a b first second less
    have next : (a + 1) * layout.tupleWidth ≤ b * layout.tupleWidth := Nat.mul_le_mul_right _ less
    have step := Nat.add_one_mul a layout.tupleWidth
    have below := first.2
    have above := second.1
    omega
  have up := order slot other here there
  have down := order other slot there here
  omega

def Mirrors (schema : Schema) (layout : PageLayout) (data : Bytes) (slot : Nat)
    (slots : List (Option Tuple)) : Prop :=
  ∀ (i : Nat) (tuple : Tuple), slots[i]? = some (some tuple) →
    Schema.decodeFields data schema.types
      (layout.headerLength + (slot + i) * layout.tupleWidth) = .ok tuple.fields

structure PutsBack (schema : Schema) (layout : PageLayout) (data : Bytes) (slot : Nat)
    (slots : List (Option Tuple)) (out result : Bytes) : Prop where
  used : ∀ (i : Nat) (tuple : Tuple), slots[i]? = some (some tuple) →
    ∀ offset, InSlot layout (slot + i) offset →
      Kept (Schema.Keeps schema.types data
        (layout.headerLength + (slot + i) * layout.tupleWidth) offset) (data.byte offset)
        (result.byte offset)
  free : ∀ offset, (∀ (i : Nat) (tuple : Tuple), slots[i]? = some (some tuple) →
    ¬InSlot layout (slot + i) offset) → result.byte offset = out.byte offset

theorem PutsBack.skip {slots : List (Option Tuple)} {out result : Bytes}
    (back : PutsBack schema layout data (slot + 1) slots out result) :
    PutsBack schema layout data slot (none :: slots) out result where
  used i tuple found := by
    cases i with
    | zero => simp at found
    | succ i =>
      have shift : slot + (i + 1) = slot + 1 + i := by omega
      rw [shift]
      exact back.used i tuple (by simpa using found)
  free offset apart := by
    refine back.free offset fun i tuple found => ?_
    have shift : slot + (i + 1) = slot + 1 + i := by omega
    exact shift ▸ apart (i + 1) tuple (by simpa using found)

theorem PutsBack.cons {slots : List (Option Tuple)} {tuple : Tuple} {out first result : Bytes}
    (width : layout.tupleWidth = schema.size)
    (recodes : Schema.Recodes schema.types data
      (layout.headerLength + slot * layout.tupleWidth) out first)
    (back : PutsBack schema layout data (slot + 1) slots first result) :
    PutsBack schema layout data slot (some tuple :: slots) out result := by
  have size : Schema.sizes schema.types = layout.tupleWidth := width.symm
  have shift : ∀ i, slot + (i + 1) = slot + 1 + i := by omega
  refine ⟨fun i stored found offset inside => ?_, fun offset apart => ?_⟩
  · cases i with
    | zero =>
      -- The later slots leave this one alone.
      have early : result.byte offset = first.byte offset := by
        refine back.free offset fun i _ _ later => ?_
        have same := inside.unique later
        omega
      rw [early]
      exact recodes.inside offset inside.1 (size ▸ inside.2)
    | succ i =>
      rw [shift] at inside ⊢
      exact back.used i stored (by simpa using found) offset inside
  · have later : result.byte offset = first.byte offset :=
      back.free offset fun i stored found => shift i ▸ apart (i + 1) stored (by simpa using found)
    have here : ¬InSlot layout slot offset := apart 0 tuple rfl
    rw [later]
    refine recodes.outside offset ?_
    rw [size]
    unfold InSlot at here
    omega

theorem exists_putBack (valid : layout.Valid) (width : layout.tupleWidth = schema.size)
    (slots : List (Option Tuple)) (slot : Nat) (room : slot + slots.length ≤ layout.numSlots)
    (mirrors : Mirrors schema layout data slot slots) (out : Bytes) :
    ∃ result, putSlots schema layout 0 slot slots out = .ok result ∧
      PutsBack schema layout data slot slots out result := by
  induction slots generalizing slot out with
  | nil => exact ⟨out, rfl, by simp, fun _ _ => rfl⟩
  | cons entry slots ih =>
    rw [List.length_cons] at room
    have rest := ih (slot + 1) (by omega) fun i tuple found => by
      have shift : slot + (i + 1) = slot + 1 + i := by omega
      exact shift ▸ mirrors (i + 1) tuple (by simpa using found)
    cases entry with
    | none =>
      obtain ⟨result, put, back⟩ := rest out
      exact ⟨result, put, back.skip⟩
    | some tuple =>
      obtain ⟨first, stored, recodes⟩ := Schema.exists_recode (mirrors 0 tuple rfl) out
      obtain ⟨result, put, back⟩ := rest first
      refine ⟨result, ?_, back.cons width recodes⟩
      rw [putSlots, valid.slotStart_eq (by omega)]
      simp only [bind, Except.bind, Schema.encode, Nat.zero_add]
      rw [Nat.add_zero] at stored
      rw [stored]
      exact put

theorem mirrors_of_ofBytes (valid : layout.Valid) {page : HeapPage}
    (decoded : ofBytes id schema layout data = .ok page) :
    Mirrors schema layout data 0 page.slots := by
  intro slot tuple found
  obtain ⟨inside, entry⟩ := List.getElem?_eq_some_iff.mp found
  have stored := (slots_of_ofBytes valid decoded slot inside).2 tuple entry
  rw [Nat.zero_add]
  unfold Schema.decode at stored
  cases fields : Schema.decodeFields data schema.types
      (layout.headerLength + slot * layout.tupleWidth) with
  | error fault => simp [fields, Except.map] at stored
  | ok list =>
    simp only [fields, Except.map, Except.ok.injEq, Tuple.ofFields, Tuple.mk.injEq, and_true] at stored
    rw [stored]

structure Normalises (schema : Schema) (layout : PageLayout) (slots : List (Option Tuple))
    (data out : Bytes) : Prop where
  header : ∀ i, i < 8 * layout.headerLength → out.bit i = slots[i]?.join.isSome
  used : ∀ slot tuple, slots[slot]? = some (some tuple) → ∀ offset, InSlot layout slot offset →
    Kept (Schema.Keeps schema.types data (layout.headerLength + slot * layout.tupleWidth) offset)
      (data.byte offset) (out.byte offset)
  free : ∀ offset, layout.headerLength ≤ offset →
    (∀ slot tuple, slots[slot]? = some (some tuple) → ¬InSlot layout slot offset) →
    out.byte offset = 0

theorem exists_normalises (valid : layout.Valid) (width : layout.tupleWidth = schema.size)
    {page : HeapPage} (decoded : ofBytes id schema layout data = .ok page) :
    ∃ out, page.toBytes = .ok out ∧ Normalises schema layout page.slots data out := by
  have mirrors := mirrors_of_ofBytes valid decoded
  obtain ⟨sound, rfl, rfl, rfl⟩ := fits_of_ofBytes valid width decoded
  have room := valid.header_room
  have within := valid.within
  obtain ⟨header, marked, headerSize, bits⟩ := exists_markUsed page.slots 0
    (Array.replicate page.layout.headerLength 0) (by simp [sound.count]; omega)
  rw [Array.size_replicate] at headerSize bits
  have headerLength : header.toList.length = page.layout.headerLength := by simpa using headerSize
  obtain ⟨out, put, back⟩ := exists_putBack valid width page.slots 0
    (by rw [Nat.zero_add, sound.count]) mirrors
    (((Bytes.zeros page.layout.pageSize).clear 0 page.layout.pageSize).write 0 header.toList)
  refine ⟨out, ?_, ?_, ?_, ?_⟩
  · simp only [toBytes, HeapPage.put, marked, bind, Except.bind]
    exact put
  · intro i inside
    have low : i / 8 < page.layout.headerLength := by omega
    -- No slot reaches into the bitmap.
    have byte := back.free (i / 8) fun slot _ _ window => by
      have := window.1
      omega
    have bit := bits i low
    have size : i / 8 < header.size := by omega
    rw [Bytes.byte_write, dif_pos ⟨Nat.zero_le _, by omega⟩] at byte
    rw [Bitmap.get_eq size, Nat.sub_zero, Bitmap.get_replicate low] at bit
    rw [Bytes.bit, byte]
    simp only [Nat.sub_zero, Array.getElem_toList]
    cases entry : page.slots[i]?.join.isSome with
    | true =>
      rw [entry, if_pos ⟨Nat.zero_le _, rfl⟩] at bit
      exact Except.ok.inj bit
    | false =>
      rw [entry, if_neg (by simp)] at bit
      exact Except.ok.inj bit
  · intro slot tuple found offset inside
    have shift := Nat.zero_add slot
    exact shift ▸ back.used slot tuple found offset (shift.symm ▸ inside)
  · intro offset behind apart
    rw [back.free offset fun slot tuple found => (Nat.zero_add slot).symm ▸ apart slot tuple found,
      Bytes.byte_write, dif_neg (by omega), Bytes.byte_clear]
    split
    · rfl
    · simp [Bytes.byte, Bytes.zeros]

/-- The bits of an image that say something: one for each slot, and those of the values in used
slots. -/
def Counts (schema : Schema) (layout : PageLayout) (data : Bytes) (i : Nat) : Prop :=
  i < layout.numSlots ∨ ∃ slot < layout.numSlots, data.bit slot = true ∧
    Schema.Keeps schema.types data (layout.headerLength + slot * layout.tupleWidth) (i / 8)

theorem not_counts_of_surplus (schema : Schema) (data : Bytes) {i : Nat}
    (beyond : layout.numSlots ≤ i)
    (inside : i < 8 * layout.headerLength) : ¬Counts schema layout data i := by
  rintro (low | ⟨slot, _, _, column, type, _, first, _⟩)
  · omega
  · omega

theorem exists_tuple (valid : layout.Valid) {page : HeapPage}
    (decoded : ofBytes id schema layout data = .ok page) (inside : slot < page.slots.length)
    (used : data.bit slot = true) : ∃ tuple, page.slots[slot]? = some (some tuple) := by
  have some := (slots_of_ofBytes valid decoded slot inside).1
  rw [used, Option.isSome_iff_exists] at some
  obtain ⟨tuple, entry⟩ := some
  exact ⟨tuple, by rw [List.getElem?_eq_getElem inside, entry]⟩

theorem inSlot_of_keeps (valid : layout.Valid) (width : layout.tupleWidth = schema.size)
    {page : HeapPage} (decoded : ofBytes id schema layout data = .ok page) {tuple : Tuple}
    (found : page.slots[slot]? = some (some tuple))
    (keeps : Schema.Keeps schema.types data (layout.headerLength + slot * layout.tupleWidth)
      offset) : InSlot layout slot offset := by
  have stored := mirrors_of_ofBytes valid decoded slot tuple found
  rw [Nat.zero_add] at stored
  obtain ⟨low, high⟩ := Schema.window_of_keeps stored keeps
  exact ⟨low, width ▸ high⟩

theorem Normalises.bit (valid : layout.Valid) (width : layout.tupleWidth = schema.size)
    {page : HeapPage} (decoded : ofBytes id schema layout data = .ok page) {out : Bytes}
    (normal : Normalises schema layout page.slots data out) (i : Nat) :
    out.bit i = true ↔ data.bit i = true ∧ Counts schema layout data i := by
  have room := valid.header_room
  have count : page.slots.length = layout.numSlots := by
    obtain ⟨sound, _, _, rfl⟩ := fits_of_ofBytes valid width decoded
    exact sound.count
  have place : ∀ slot tuple, page.slots[slot]? = some (some tuple) →
      slot < layout.numSlots ∧ data.bit slot = true := by
    intro slot tuple found
    obtain ⟨inside, entry⟩ := List.getElem?_eq_some_iff.mp found
    have used := (slots_of_ofBytes valid decoded slot inside).1
    exact ⟨count ▸ inside, by rw [← used, entry]; rfl⟩
  -- A bit lies in the bitmap, in the window of a used slot, or where nothing is written but zeros.
  by_cases low : i < 8 * layout.headerLength
  · rw [normal.header i low]
    by_cases counted : i < layout.numSlots
    · have inside : i < page.slots.length := count ▸ counted
      rw [List.getElem?_eq_getElem inside, Option.join_some,
        (slots_of_ofBytes valid decoded i inside).1]
      exact (and_iff_left (.inl counted)).symm
    · rw [List.getElem?_eq_none (by omega)]
      simp [not_counts_of_surplus schema data (Nat.le_of_not_lt counted) low]
  · by_cases window : ∃ slot tuple, page.slots[slot]? = some (some tuple) ∧
        InSlot layout slot (i / 8)
    · obtain ⟨slot, tuple, found, here⟩ := window
      have counts : Counts schema layout data i ↔ Schema.Keeps schema.types data
          (layout.headerLength + slot * layout.tupleWidth) (i / 8) := by
        constructor
        · rintro (inside | ⟨other, inside, used, keeps⟩)
          · omega
          · obtain ⟨stored, entry⟩ := exists_tuple valid decoded (count ▸ inside) used
            rwa [here.unique (inSlot_of_keeps valid width decoded entry keeps)]
        · exact fun keeps => .inr ⟨slot, (place slot tuple found).1, (place slot tuple found).2, keeps⟩
      rw [counts]
      exact (normal.used slot tuple found (i / 8) here).getLsbD (i % 8)
    · have zero : out.byte (i / 8) = 0 :=
        normal.free (i / 8) (by omega) fun slot tuple found here => window ⟨slot, tuple, found, here⟩
      have silent : ¬Counts schema layout data i := by
        rintro (inside | ⟨slot, inside, used, keeps⟩)
        · omega
        · obtain ⟨tuple, found⟩ := exists_tuple valid decoded (count ▸ inside) used
          exact window ⟨slot, tuple, found, inSlot_of_keeps valid width decoded found keeps⟩
      rw [Bytes.bit, zero]
      simp [silent]

theorem ofBytes_ne_fault (valid : layout.Valid) (fault : Fault) :
    ofBytes id schema layout data ≠ .error (.fault fault) := by
  by_cases length : data.length = layout.pageSize
  · by_cases fine : ∀ slot < layout.numSlots, ¬Spoilt schema layout data slot
    · obtain ⟨page, decoded⟩ := ofBytes_of_fine id valid length fine
      simp [decoded]
    · push Not at fine
      obtain ⟨slot, ⟨inside, spoilt⟩, least⟩ := WellFounded.has_min wellFounded_lt
        {slot | slot < layout.numSlots ∧ Spoilt schema layout data slot} fine
      obtain ⟨cell, failed⟩ := ofBytes_of_spoilt id valid length inside spoilt
        fun earlier low also => least earlier ⟨low.trans inside, also⟩ low
      simp [failed]
  · simp [ofBytes, length]

theorem isUsed_of_ofBytes (valid : layout.Valid) {page : HeapPage}
    (decoded : ofBytes id schema layout data = .ok page) (inside : slot < page.slots.length) :
    page.isUsed slot = data.bit slot := by
  rw [← (slots_of_ofBytes valid decoded slot inside).1, isUsed, List.getElem?_eq_getElem inside]
  cases page.slots[slot] <;> rfl

theorem toList_eq_iff_of_counts {out : Bytes} (length : out.length = data.length)
    (bits : ∀ i, out.bit i = true ↔ data.bit i = true ∧ Counts schema layout data i) :
    out.toList = data.toList ↔
      ∀ i < 8 * data.length, ¬Counts schema layout data i → data.bit i = false := by
  rw [Bytes.toList_eq_iff length, length]
  refine forall₂_congr fun i inside => ?_
  rw [Bool.eq_iff_iff, bits i]
  cases data.bit i <;> simp

/-- Which images are pages, which slot is blamed if one is not, and what an image that is read and
written again comes to. Every range that is looked at lies in the image. -/
theorem ofBytes_exact {width pageSize : Nat} (sized : schema.width = .ok width)
    (small : pageSize < 2 ^ 32) (laid : PageLayout.forSizes pageSize width = .ok layout)
    (id : PageId) (data : Bytes) :
    (∀ slot < layout.numSlots, ∃ first, layout.slotRange slot = .ok (first, first + width) ∧
      first + width ≤ pageSize ∧ ∀ (column : Nat) (type : FieldType),
        schema.types[column]? = some type →
          Schema.sizes (schema.types.take column) + type.size ≤ width) ∧
    (∀ fault, ofBytes id schema layout data ≠ .error (.fault fault)) ∧
    ((∃ page, ofBytes id schema layout data = .ok page) ↔
      data.length = pageSize ∧ ∀ slot < layout.numSlots, ¬Spoilt schema layout data slot) ∧
    (data.length ≠ pageSize → ofBytes id schema layout data =
      .error (.error (.corruptPage id (.wrongLength pageSize data.length)))) ∧
    (∀ slot < layout.numSlots, data.length = pageSize → Spoilt schema layout data slot →
      (∀ earlier < slot, ¬Spoilt schema layout data earlier) →
      ∃ fault, ofBytes id schema layout data =
        .error (.error (.corruptPage id (.badSlot slot fault)))) ∧
    ∀ page, ofBytes id schema layout data = .ok page →
      (∀ slot < layout.numSlots, page.isUsed slot = data.bit slot) ∧
      ∃ out, page.toBytes = .ok out ∧ out.length = pageSize ∧
        (∀ i, out.bit i = true ↔ data.bit i = true ∧ Counts schema layout data i) ∧
        ofBytes id schema layout out = .ok page ∧
        (out.toList = data.toList ↔
          ∀ i < 8 * pageSize, ¬Counts schema layout data i → data.bit i = false) := by
  obtain ⟨valid, rfl, rfl⟩ := PageLayout.valid_of_forSizes small laid
  have width := Schema.width_eq sized
  refine ⟨fun slot inside => ⟨_, valid.slotRange_eq inside, valid.slot_within inside,
    fun column type found => width ▸ Schema.cell_within found⟩, ofBytes_ne_fault valid,
    exists_ofBytes_iff valid, fun other => if_neg other,
    fun slot inside length spoilt least => ofBytes_of_spoilt id valid length inside spoilt least,
    fun page decoded => ?_⟩
  have length : data.length = layout.pageSize := ((exists_ofBytes_iff valid).mp ⟨page, decoded⟩).1
  have fits := fits_of_ofBytes valid width decoded
  have count : page.slots.length = layout.numSlots := fits.layout ▸ fits.sound.count
  refine ⟨fun slot inside => isUsed_of_ofBytes valid decoded (count ▸ inside), ?_⟩
  -- A page that was read fits, so there is an image of it; the bits of that image are told slot by
  -- slot.
  obtain ⟨out, written, normal⟩ := exists_normalises valid width decoded
  obtain ⟨bytes, same, size, again⟩ := fits.toBytes
  obtain rfl : out = bytes := Except.ok.inj (written.symm.trans same)
  have bits := normal.bit valid width decoded
  refine ⟨out, written, size, bits, ?_, ?_⟩
  · rw [again, clean_of_ofBytes valid width decoded]
  · rw [← length]
    exact toList_eq_iff_of_counts (size.trans length.symm) bits

/-- One row, four bits too many in the bitmap, and a byte behind the name. -/
def untidy : Bytes :=
  (Bytes.zeros 64).write 0 [0xf1, 0, 0, 0, 7, 0, 0, 0, 2, 0xc3, 0xa9, 0x21]

theorem ofBytes_exact_untidy :
    let page : HeapPage := { blank ⟨⟨0⟩, 5⟩ names ⟨64, 14, 4, 1⟩ with
      slots := [some ⟨[.int 7, .str "é"], some ⟨⟨⟨0⟩, 5⟩, 0⟩⟩, none, none, none] }
    ofBytes ⟨⟨0⟩, 5⟩ names ⟨64, 14, 4, 1⟩ untidy = .ok page ∧
      ∃ out, page.toBytes = .ok out ∧ out.bit 0 = true ∧ out.toList ≠ untidy.toList ∧
        ofBytes ⟨⟨0⟩, 5⟩ names ⟨64, 14, 4, 1⟩ out = .ok page := by
  intro page
  have decoded : ofBytes ⟨⟨0⟩, 5⟩ names ⟨64, 14, 4, 1⟩ untidy = .ok page := by decide +kernel
  have sized : names.width = .ok 14 := by decide
  have laid : PageLayout.forSizes 64 14 = .ok ⟨64, 14, 4, 1⟩ := by decide
  obtain ⟨_, _, _, _, _, found⟩ := ofBytes_exact sized (by decide) laid ⟨⟨0⟩, 5⟩ untidy
  obtain ⟨_, out, written, _, bits, again, same⟩ := found page decoded
  refine ⟨decoded, out, written, (bits 0).mpr ⟨by decide +kernel, .inl (by decide)⟩, ?_, again⟩
  rw [ne_eq, same]
  intro silent
  have fifth := silent 4 (by decide) (not_counts_of_surplus names untidy (by decide) (by decide))
  exact absurd fifth (by decide +kernel)

end HeapPage
end PagedTables
