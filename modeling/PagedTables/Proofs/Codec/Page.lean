import PagedTables.Page.Image
import PagedTables.Proofs.Codec.Bitmap
import PagedTables.Proofs.Codec.Layout
import PagedTables.Proofs.Codec.Tuple

/-! Stored pages read back. A sound page is put over its window and nowhere else, the same slots are
read from that window, a window of zeros is a blank page, and whatever is read is sound. -/

namespace PagedTables.HeapPage

/-- Every slot of the layout is there, and each stored tuple has the page's schema and the record id
of its slot. -/
structure Sound (page : HeapPage) : Prop where
  layout : page.layout.Valid
  width : page.layout.tupleWidth = page.schema.size
  count : page.slots.length = page.layout.numSlots
  stored : ∀ (slot : Nat) (tuple : Tuple), page.slots[slot]? = some (some tuple) →
    page.schema.validate tuple = .ok () ∧ tuple.recordId = some ⟨page.id, slot⟩

/-- What does not depend on how the slots are laid out: all of them are there, and each stored tuple
has the schema and the record id of its slot. -/
structure Slotted (id : PageId) (schema : Schema) (layout : PageLayout) (page : HeapPage) : Prop where
  count : page.slots.length = layout.numSlots
  stored : ∀ (slot : Nat) (tuple : Tuple), page.slots[slot]? = some (some tuple) →
    schema.validate tuple = .ok () ∧ tuple.recordId = some ⟨id, slot⟩
  id : page.id = id
  schema : page.schema = schema
  layout : page.layout = layout

theorem Sound.slotted {page : HeapPage} (sound : page.Sound) :
    page.Slotted page.id page.schema page.layout :=
  ⟨sound.count, sound.stored, rfl, rfl, rfl⟩

theorem Slotted.sound {id : PageId} {schema : Schema} {layout : PageLayout} {page : HeapPage}
    (slotted : page.Slotted id schema layout) (valid : layout.Valid)
    (width : layout.tupleWidth = schema.size) : page.Sound := by
  obtain ⟨count, stored, rfl, rfl, rfl⟩ := slotted
  exact ⟨valid, width, count, stored⟩

theorem mapM_eq_ok_iff {α β ε : Type} {f : α → Except ε β} {xs : List α} {ys : List β} :
    xs.mapM f = .ok ys ↔ List.Forall₂ (fun x y => f x = .ok y) xs ys := by
  induction xs generalizing ys with
  | nil => simp [pure, Except.pure, eq_comm]
  | cons x xs ih =>
    rw [List.mapM_cons]
    cases first : f x with
    | error fault => simp [bind, Except.bind, List.forall₂_cons_left_iff, first]
    | ok y =>
      cases rest : xs.mapM f with
      | error fault =>
        simp only [bind, Except.bind, reduceCtorEq, false_iff]
        intro all
        obtain ⟨_, others, _, tail, _⟩ := List.forall₂_cons_left_iff.mp all
        rw [ih.mpr tail] at rest
        cases rest
      | ok others =>
        simp only [bind, Except.bind, pure, Except.pure, Except.ok.injEq,
          List.forall₂_cons_left_iff, first]
        constructor
        · rintro rfl
          exact ⟨y, others, rfl, ih.mp rest, rfl⟩
        · rintro ⟨_, tail, rfl, all, rfl⟩
          rw [ih.mpr all] at rest
          cases rest
          rfl

theorem mapM_range_eq_ok_iff {α ε : Type} {f : Nat → Except ε α} {n : Nat} {ys : List α} :
    (List.range n).mapM f = .ok ys ↔
      ys.length = n ∧ ∀ i (inside : i < ys.length), f i = .ok ys[i] := by
  rw [mapM_eq_ok_iff, List.forall₂_iff_get]
  simp only [List.length_range, List.get_eq_getElem, List.getElem_range]
  constructor
  · rintro ⟨length, all⟩
    exact ⟨length.symm, fun i inside => all i (length ▸ inside) inside⟩
  · rintro ⟨length, all⟩
    exact ⟨length.symm, fun i _ inside => all i inside⟩

theorem mapM_congr {α β ε : Type} {f g : α → Except ε β} {xs : List α}
    (h : ∀ x ∈ xs, f x = g x) : xs.mapM f = xs.mapM g := by
  induction xs with
  | nil => rfl
  | cons x xs ih =>
    rw [List.mapM_cons, List.mapM_cons, h x List.mem_cons_self,
      ih fun y member => h y (List.mem_cons_of_mem x member)]

section Write

variable {schema : Schema} {layout : PageLayout}

theorem exists_markUsed (slots : List (Option Tuple)) (slot : Nat) (header : Array UInt8)
    (room : slot + slots.length ≤ 8 * header.size) :
    ∃ result, markUsed slot slots header = .ok result ∧ result.size = header.size ∧
      ∀ other, other / 8 < header.size → Bitmap.get result other =
        if slot ≤ other ∧ slots[other - slot]?.join.isSome then .ok true
        else Bitmap.get header other := by
  induction slots generalizing slot header with
  | nil => exact ⟨header, rfl, rfl, fun other _ => by simp⟩
  | cons entry slots ih =>
    rw [List.length_cons] at room
    have later : ∀ other, slot + 1 ≤ other → other - slot = other - (slot + 1) + 1 := by omega
    cases entry with
    | none =>
      obtain ⟨result, marked, size, bits⟩ := ih (slot + 1) header (by omega)
      refine ⟨result, marked, size, fun other inside => ?_⟩
      rw [bits other inside]
      rcases Nat.lt_trichotomy other slot with low | rfl | high
      · rw [if_neg (by omega), if_neg (by omega)]
      · simp
      · rw [later other high]
        simp [Nat.le_of_lt high, Nat.succ_le_of_lt high]
    | some tuple =>
      have here : slot / 8 < header.size := by omega
      obtain ⟨first, set, same, changed⟩ := Bitmap.exists_set here true
      obtain ⟨result, marked, size, bits⟩ := ih (slot + 1) first (by omega)
      refine ⟨result, ?_, size.trans same, fun other inside => ?_⟩
      · rw [markUsed, set]
        exact marked
      · rw [bits other (same ▸ inside), changed other inside]
        rcases Nat.lt_trichotomy other slot with low | rfl | high
        · rw [if_neg (by omega), if_neg (by omega), if_neg (by omega)]
        · simp
        · rw [later other high]
          simp [Nat.le_of_lt high, Nat.succ_le_of_lt high, Nat.ne_of_gt high]

structure PutsSlots (schema : Schema) (layout : PageLayout) (start slot : Nat)
    (slots : List (Option Tuple)) (out result : Bytes) : Prop where
  outside : Bytes.AgreeOutside result out
    (start + (layout.headerLength + slot * layout.tupleWidth)) (slots.length * layout.tupleWidth)
  length : start + layout.pageSize ≤ out.length → result.length = out.length
  decodes : ∀ (i : Nat) (tuple : Tuple), slots[i]? = some (some tuple) → ∀ data : Bytes,
    Bytes.Agree data result (start + (layout.headerLength + (slot + i) * layout.tupleWidth))
      layout.tupleWidth →
    schema.decode data (start + (layout.headerLength + (slot + i) * layout.tupleWidth)) =
      .ok (Tuple.ofFields tuple.fields)

theorem PutsSlots.skip {start slot : Nat} {slots : List (Option Tuple)} {out result : Bytes}
    (puts : PutsSlots schema layout start (slot + 1) slots out result) :
    PutsSlots schema layout start slot (none :: slots) out result where
  outside := by
    have next := Nat.add_one_mul slot layout.tupleWidth
    have total := Nat.add_one_mul slots.length layout.tupleWidth
    rw [List.length_cons]
    exact puts.outside.mono (by omega) (by omega)
  length := puts.length
  decodes i tuple found := by
    cases i with
    | zero => simp at found
    | succ i =>
      have shift : slot + (i + 1) = slot + 1 + i := by omega
      rw [shift]
      exact puts.decodes i tuple (by simpa using found)

theorem PutsSlots.cons {start slot : Nat} {slots : List (Option Tuple)} {tuple : Tuple}
    {out first result : Bytes} (width : layout.tupleWidth = schema.size)
    (small : layout.tupleWidth < 2 ^ 32) (conforms : Conforms schema.types tuple.fields)
    (within : layout.headerLength + slot * layout.tupleWidth + layout.tupleWidth ≤ layout.pageSize)
    (encodes : Schema.Encodes schema.types tuple.fields
      (start + (layout.headerLength + slot * layout.tupleWidth)) out first)
    (puts : PutsSlots schema layout start (slot + 1) slots first result) :
    PutsSlots schema layout start slot (some tuple :: slots) out result := by
  have size : Schema.sizes schema.types = layout.tupleWidth := width.symm
  have next := Nat.add_one_mul slot layout.tupleWidth
  have total := Nat.add_one_mul slots.length layout.tupleWidth
  refine ⟨?_, fun long => ?_, fun i stored found data agree => ?_⟩
  · have kept := encodes.outside
    rw [size] at kept
    rw [List.length_cons]
    exact (puts.outside.mono (by omega) (by omega)).trans (kept.mono (by omega) (by omega))
  · have same := encodes.length (by omega)
    rw [puts.length (by omega), same]
  · cases i with
    | zero =>
      obtain rfl : tuple = stored := by simpa using found
      rw [Nat.add_zero] at agree ⊢
      -- The later slots are put behind this one and leave its window alone.
      have early := agree.trans (puts.outside.agree (.inl (by omega)))
      rw [Schema.decode, encodes.decodes conforms (size ▸ small) (size ▸ early)]
      rfl
    | succ i =>
      have shift : slot + (i + 1) = slot + 1 + i := by omega
      rw [shift] at agree ⊢
      exact puts.decodes i stored (by simpa using found) data agree

theorem exists_putSlots (valid : layout.Valid) (width : layout.tupleWidth = schema.size)
    (slots : List (Option Tuple)) (slot : Nat) (room : slot + slots.length ≤ layout.numSlots)
    (shaped : ∀ tuple, some tuple ∈ slots → schema.validate tuple = .ok ()) (start : Nat)
    (out : Bytes) :
    ∃ result, putSlots schema layout start slot slots out = .ok result ∧
      PutsSlots schema layout start slot slots out result := by
  induction slots generalizing slot out with
  | nil => exact ⟨out, rfl, .refl out _ _, fun _ => rfl, by simp⟩
  | cons entry slots ih =>
    rw [List.length_cons] at room
    have rest := ih (slot + 1) (by omega)
      fun tuple member => shaped tuple (List.mem_cons_of_mem _ member)
    cases entry with
    | none =>
      obtain ⟨result, put, puts⟩ := rest out
      exact ⟨result, put, puts.skip⟩
    | some tuple =>
      have inside : slot < layout.numSlots := by omega
      have within := valid.slot_within inside
      have small := valid.small
      have size : Schema.sizes schema.types = layout.tupleWidth := width.symm
      have conforms := Schema.validate_eq_ok_iff.mp (shaped tuple List.mem_cons_self)
      obtain ⟨first, stored, encodes⟩ := Schema.exists_encodeFields conforms
        (start + (layout.headerLength + slot * layout.tupleWidth)) out
      obtain ⟨result, put, puts⟩ := rest first
      refine ⟨result, ?_, puts.cons width (by omega) conforms within encodes⟩
      rw [putSlots, valid.slotStart_eq inside]
      simp only [bind, Except.bind, Schema.encode, stored]
      exact put

end Write

section Read

variable {id : PageId} {schema : Schema} {layout : PageLayout} {header : Array UInt8} {data : Bytes}
  {start slot : Nat}

theorem readSlot_of_free (free : Bitmap.get header slot = .ok false) :
    readSlot id schema layout header data start slot = .ok none := by
  simp [readSlot, free, bind, Except.bind, pure, Except.pure]

theorem readSlot_of_used (valid : layout.Valid) (inside : slot < layout.numSlots)
    (used : Bitmap.get header slot = .ok true) :
    readSlot id schema layout header data start slot =
      match schema.decode data (start + (layout.headerLength + slot * layout.tupleWidth)) with
      | .ok tuple => .ok (some (tuple.setRecordId (some ⟨id, slot⟩)))
      | .error fault => .error (.error (.corruptPage id (.badSlot slot fault))) := by
  cases decoded : schema.decode data
    (start + (layout.headerLength + slot * layout.tupleWidth)) with
  | error fault =>
    simp [readSlot, used, valid.slotStart_eq inside, decoded, bind, Except.bind]
  | ok tuple =>
    simp [readSlot, used, valid.slotStart_eq inside, decoded, bind, Except.bind, pure, Except.pure]

theorem read_congr (valid : layout.Valid) (width : layout.tupleWidth = schema.size) {a b : Bytes}
    (agree : Bytes.Agree a b start layout.pageSize) :
    read id schema layout a start = read id schema layout b start := by
  have within := valid.within
  have header : Bytes.Agree a b start layout.headerLength :=
    agree.sub (Nat.le_refl start) (by omega)
  have slots : ∀ slot ∈ List.range layout.numSlots, ∀ header,
      readSlot id schema layout header a start slot =
        readSlot id schema layout header b start slot := by
    intro slot member header
    have inside := List.mem_range.mp member
    have window := valid.slot_within inside
    cases bit : Bitmap.get header slot with
    | error failure => simp only [readSlot, bit, bind, Except.bind]
    | ok used =>
      cases used with
      | false => rw [readSlot_of_free bit, readSlot_of_free bit]
      | true =>
        have tuple : Bytes.Agree a b (start + (layout.headerLength + slot * layout.tupleWidth))
            schema.size := agree.sub (by omega) (by omega)
        rw [readSlot_of_used valid inside bit, readSlot_of_used valid inside bit,
          Schema.decode_congr tuple]
  unfold read
  simp only [Bytes.read_congr header, mapM_congr fun slot member => slots slot member _]

theorem read_of_zeros (laid : layout.Laid)
    (zeros : ∀ offset, start ≤ offset → offset < start + layout.pageSize → data.byte offset = 0) :
    read id schema layout data start = .ok (blank id schema layout) := by
  have within := laid.within
  have room := laid.header_room
  have bitmap : (data.read start layout.headerLength).toArray =
      Array.replicate layout.headerLength 0 := by
    have zero : data.read start layout.headerLength = List.replicate layout.headerLength 0 := by
      refine List.ext_getElem (by simp) fun i low high => ?_
      rw [Bytes.length_read] at low
      rw [Bytes.getElem_read, List.getElem_replicate]
      exact zeros (start + i) (by omega) (by omega)
    rw [zero, List.toArray_replicate]
  have slots : (List.range layout.numSlots).mapM (readSlot id schema layout
      (Array.replicate layout.headerLength 0) data start) =
        .ok (List.replicate layout.numSlots none) := by
    rw [mapM_range_eq_ok_iff]
    refine ⟨List.length_replicate, fun slot inside => ?_⟩
    rw [List.length_replicate] at inside
    rw [List.getElem_replicate]
    exact readSlot_of_free (Bitmap.get_replicate (by omega))
  simp only [read, bitmap, slots, bind, Except.bind, pure, Except.pure, blank]

theorem stored_of_readSlot {tuple : Tuple}
    (h : readSlot id schema layout header data start slot = .ok (some tuple)) :
    schema.validate tuple = .ok () ∧ tuple.recordId = some ⟨id, slot⟩ := by
  unfold readSlot at h
  cases bit : Bitmap.get header slot with
  | error failure => simp [bit, bind, Except.bind] at h
  | ok used =>
  cases used with
  | false => simp [bit, bind, Except.bind, pure, Except.pure] at h
  | true =>
  cases place : layout.slotStart slot with
  | error failure => simp [bit, place, bind, Except.bind] at h
  | ok first =>
    simp only [bit, place, bind, Except.bind, if_true] at h
    split at h
    · next stored decoded =>
      simp only [pure, Except.pure, Except.ok.injEq, Option.some.injEq] at h
      subst h
      exact ⟨Schema.validate_of_decode decoded _, rfl⟩
    · cases h

theorem slotted_of_read {page : HeapPage} (h : read id schema layout data start = .ok page) :
    page.Slotted id schema layout ∧ page.dirtiedBy = none := by
  unfold read at h
  cases slots : (List.range layout.numSlots).mapM (readSlot id schema layout
      (data.read start layout.headerLength).toArray data start) with
  | error failure => simp [slots, bind, Except.bind] at h
  | ok list =>
    simp only [slots, bind, Except.bind, pure, Except.pure, Except.ok.injEq] at h
    subst h
    obtain ⟨count, each⟩ := mapM_range_eq_ok_iff.mp slots
    refine ⟨⟨count, fun slot tuple found => ?_, rfl, rfl, rfl⟩, rfl⟩
    obtain ⟨inside, entry⟩ := List.getElem?_eq_some_iff.mp found
    exact stored_of_readSlot (entry ▸ each slot inside)

theorem sound_of_read (valid : layout.Valid) (width : layout.tupleWidth = schema.size)
    {page : HeapPage} (h : read id schema layout data start = .ok page) :
    page.Sound ∧ page.id = id ∧ page.schema = schema ∧ page.layout = layout ∧
      page.dirtiedBy = none := by
  obtain ⟨slotted, clean⟩ := slotted_of_read h
  exact ⟨slotted.sound valid width, slotted.id, slotted.schema, slotted.layout, clean⟩

end Read

structure Puts (page : HeapPage) (start : Nat) (out result : Bytes) : Prop where
  outside : Bytes.AgreeOutside result out start page.layout.pageSize
  length : result.length = max out.length (start + page.layout.pageSize)
  reads : ∀ data : Bytes, Bytes.Agree data result start page.layout.pageSize →
    read page.id page.schema page.layout data start = .ok (page.markDirty none)

theorem Sound.readSlots {page : HeapPage} (sound : page.Sound) {header : Array UInt8} {data : Bytes}
    {start : Nat}
    (bits : ∀ slot (inside : slot < page.slots.length),
      Bitmap.get header slot = .ok page.slots[slot].isSome)
    (decodes : ∀ slot tuple, page.slots[slot]? = some (some tuple) → page.schema.decode data
      (start + (page.layout.headerLength + slot * page.layout.tupleWidth)) =
        .ok (Tuple.ofFields tuple.fields)) :
    (List.range page.layout.numSlots).mapM
      (readSlot page.id page.schema page.layout header data start) = .ok page.slots := by
  rw [mapM_range_eq_ok_iff]
  refine ⟨sound.count, fun slot inside => ?_⟩
  have bit := bits slot inside
  cases entry : page.slots[slot] with
  | none =>
    rw [entry] at bit
    exact readSlot_of_free bit
  | some tuple =>
    have found : page.slots[slot]? = some (some tuple) := by
      rw [List.getElem?_eq_getElem inside, entry]
    have placed : (Tuple.ofFields tuple.fields).setRecordId (some ⟨page.id, slot⟩) = tuple := by
      rw [← (sound.stored slot tuple found).2]
      rfl
    rw [entry] at bit
    rw [readSlot_of_used sound.layout (sound.count ▸ inside) bit, decodes slot tuple found]
    exact congrArg (fun tuple => Except.ok (some tuple)) placed

theorem Sound.exists_put {page : HeapPage} (sound : page.Sound) (start : Nat) (out : Bytes) :
    ∃ result, page.put start out = .ok result ∧ Puts page start out result := by
  have valid := sound.layout
  have room := valid.header_room
  have within := valid.within
  have width_pos := valid.width_pos
  have shaped : ∀ tuple, some tuple ∈ page.slots → page.schema.validate tuple = .ok () := by
    intro tuple member
    obtain ⟨slot, found⟩ := List.mem_iff_getElem?.mp member
    exact (sound.stored slot tuple found).1
  obtain ⟨header, marked, headerSize, bits⟩ := exists_markUsed page.slots 0
    (Array.replicate page.layout.headerLength 0) (by simp [sound.count]; omega)
  rw [Array.size_replicate] at headerSize bits
  have headerLength : header.toList.length = page.layout.headerLength := by simpa using headerSize
  obtain ⟨result, put, puts⟩ := exists_putSlots valid sound.width page.slots 0
    (by rw [Nat.zero_add, sound.count]) shaped start
    ((out.clear start page.layout.pageSize).write start header.toList)
  have slotsOutside := puts.outside
  rw [Nat.zero_mul, sound.count] at slotsOutside
  have headerOutside := Bytes.write_agreeOutside (out.clear start page.layout.pageSize) start
    header.toList
  rw [headerLength] at headerOutside
  have cleared := Bytes.length_clear out start page.layout.pageSize
  refine ⟨result, ?_, ?_, ?_, ?_⟩
  · simp only [HeapPage.put, marked, bind, Except.bind]
    exact put
  · refine (slotsOutside.mono (by omega) (by omega)).trans ?_
    refine (headerOutside.mono (by omega) (by omega)).trans ?_
    exact Bytes.clear_agreeOutside out start page.layout.pageSize
  · have positive := valid.pageSize_pos
    rw [if_neg (by omega)] at cleared
    have room : start + header.toList.length ≤ (out.clear start page.layout.pageSize).length := by
      omega
    have written := Bytes.length_write_of_le room
    rw [puts.length (by omega), written, cleared]
  · intro data agree
    -- The slots lie behind the bitmap, so it is read as it was written.
    have early : Bytes.Agree data ((out.clear start page.layout.pageSize).write start header.toList)
        start page.layout.headerLength :=
      (agree.sub (Nat.le_refl start) (by omega)).trans (slotsOutside.agree (.inl (by omega)))
    have bitmap : (data.read start page.layout.headerLength).toArray = header := by
      rw [Bytes.read_congr early, ← headerLength, Bytes.read_write_self, Array.toArray_toList]
    have slots : (List.range page.layout.numSlots).mapM
        (readSlot page.id page.schema page.layout header data start) = .ok page.slots := by
      refine sound.readSlots (fun slot inside => ?_) fun slot tuple found => ?_
      · have counted : slot < page.layout.numSlots := sound.count ▸ inside
        have bit := bits slot (by omega)
        rw [Nat.sub_zero, List.getElem?_eq_getElem inside, Bitmap.get_replicate (by omega)] at bit
        cases entry : page.slots[slot] <;> simpa [entry] using bit
      · have inside : slot < page.layout.numSlots :=
          sound.count ▸ (List.getElem?_eq_some_iff.mp found).1
        have window := valid.slot_within inside
        have decoded := puts.decodes slot tuple found data
        rw [Nat.zero_add] at decoded
        exact decoded (agree.sub (by omega) (by omega))
    simp only [read, bitmap, slots, bind, Except.bind, pure, Except.pure, markDirty]

end PagedTables.HeapPage
