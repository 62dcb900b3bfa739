import PagedTables.Proofs.Codec.Page

/-! Which images are pages. A slot whose bit is set has to be legible, that is, each of its string
cells has to hold text; the lowest slot that is not is the one that is named. -/

namespace PagedTables

namespace Bytes

/-- A bit of a byte string; each byte's least significant bit comes first. -/
def bit (bytes : Bytes) (i : Nat) : Bool := (bytes.byte (i / 8)).toBitVec.getLsbD (i % 8)

def word (bytes : Bytes) (start : Nat) : Nat :=
  (bytes.byte start).toNat * 2 ^ 24 + (bytes.byte (start + 1)).toNat * 2 ^ 16 +
    (bytes.byte (start + 2)).toNat * 2 ^ 8 + (bytes.byte (start + 3)).toNat

/-- A number of at most `limit`, and as many bytes of well-formed text. -/
def HoldsText (bytes : Bytes) (start limit : Nat) : Prop :=
  bytes.word start ≤ limit ∧
    (ByteArray.mk (bytes.read (start + 4) (bytes.word start)).toArray).IsValidUTF8

theorem read_four (bytes : Bytes) (start : Nat) :
    bytes.read start 4 =
      [bytes.byte start, bytes.byte (start + 1), bytes.byte (start + 2), bytes.byte (start + 3)] :=
  rfl

theorem toNat_decode_read (bytes : Bytes) (start : Nat) :
    (BigEndian.decode (bytes.read start 4)).toNat = bytes.word start := by
  have first := (bytes.byte start).toNat_lt
  have second := (bytes.byte (start + 1)).toNat_lt
  have third := (bytes.byte (start + 2)).toNat_lt
  have fourth := (bytes.byte (start + 3)).toNat_lt
  simp only [read_four, BigEndian.decode, word, List.getD_cons_zero, List.getD_cons_succ,
    UInt32.toNat_ofNat', Nat.shiftLeft_eq]
  omega

theorem get_read (bytes : Bytes) {length i : Nat} (inside : i < 8 * length) :
    Bitmap.get (bytes.read 0 length).toArray i = .ok (bytes.bit i) := by
  have byte : i / 8 < (bytes.read 0 length).toArray.size := by
    rw [List.size_toArray, length_read]
    omega
  rw [Bitmap.get_eq byte, List.getElem_toArray, getElem_read, Nat.zero_add, bit]

theorem toList_eq_iff {a b : Bytes} (same : a.length = b.length) :
    a.toList = b.toList ↔ ∀ i, i < 8 * a.length → a.bit i = b.bit i := by
  constructor
  · intro equal i inside
    have low : i / 8 < a.toList.length := by
      rw [toList, length_read]
      omega
    have high : i / 8 < b.toList.length := equal ▸ low
    have entry : a.toList[i / 8] = b.toList[i / 8] := by simp only [equal]
    simp only [toList, getElem_read, Nat.zero_add] at entry
    rw [bit, bit, entry]
  · intro bits
    rw [toList, toList, ← same]
    refine read_congr fun offset _ inside => UInt8.toBitVec_inj.mp ?_
    refine BitVec.eq_of_getLsbD_eq fun j small => ?_
    have place : (8 * offset + j) / 8 = offset ∧ (8 * offset + j) % 8 = j := by omega
    have here := bits (8 * offset + j) (by omega)
    rwa [bit, bit, place.1, place.2] at here

end Bytes

theorem Text.Utf8.exists_decode_iff {bytes : List UInt8} :
    (∃ text, decode bytes = .ok text) ↔ (ByteArray.mk bytes.toArray).IsValidUTF8 := by
  unfold decode
  split
  · next valid => exact ⟨fun _ => valid, fun _ => ⟨_, rfl⟩⟩
  · next broken => exact ⟨fun ⟨_, decoded⟩ => (by cases decoded), fun valid => absurd valid broken⟩

theorem FieldType.exists_read_iff {type : FieldType} {data : Bytes} {start : Nat} :
    (∃ field, type.read data start = .ok field) ↔
      ∀ limit, type = .str limit → data.HoldsText start limit := by
  cases type with
  | int => exact ⟨fun _ limit other => (by cases other), fun _ => ⟨_, rfl⟩⟩
  | str limit =>
    simp only [read, Bytes.toNat_decode_read, FieldType.str.injEq, forall_eq', Bytes.HoldsText,
      ← Text.Utf8.exists_decode_iff]
    split
    · next fits =>
      cases Text.Utf8.decode (data.read (start + 4) (data.word start)) with
      | ok text => simp [fits]
      | error fault => simp
    · next long => simp [long]

namespace Schema

def Legible (types : List FieldType) (data : Bytes) (start : Nat) : Prop :=
  ∀ (column limit : Nat), types[column]? = some (.str limit) →
    data.HoldsText (start + sizes (types.take column)) limit

theorem legible_cons {type : FieldType} {types : List FieldType} {data : Bytes} {start : Nat} :
    Legible (type :: types) data start ↔
      (∀ limit, type = .str limit → data.HoldsText start limit) ∧
        Legible types data (start + type.size) := by
  constructor
  · intro legible
    refine ⟨fun limit same => legible 0 limit (congrArg some same), fun column limit found => ?_⟩
    have later := legible (column + 1) limit found
    rwa [List.take_succ_cons, sizes, ← Nat.add_assoc] at later
  · rintro ⟨first, rest⟩ column limit found
    cases column with
    | zero => exact first limit (Option.some.inj found)
    | succ column =>
      rw [List.take_succ_cons, sizes, ← Nat.add_assoc]
      exact rest column limit found

theorem exists_decodeFields_iff {types : List FieldType} {data : Bytes} {start : Nat} :
    (∃ fields, decodeFields data types start = .ok fields) ↔ Legible types data start := by
  induction types generalizing start with
  | nil => exact ⟨fun _ column limit found => (by simp at found), fun _ => ⟨[], rfl⟩⟩
  | cons type types ih =>
    rw [legible_cons, ← ih, ← FieldType.exists_read_iff, decodeFields]
    cases type.read data start with
    | error fault => simp [bind, Except.bind]
    | ok field =>
      cases decodeFields data types (start + type.size) with
      | error fault => simp [bind, Except.bind]
      | ok fields => simp [bind, Except.bind, pure, Except.pure]

theorem exists_decode_iff {schema : Schema} {data : Bytes} {start : Nat} :
    (∃ tuple, schema.decode data start = .ok tuple) ↔ Legible schema.types data start := by
  rw [← exists_decodeFields_iff, decode]
  cases decodeFields data schema.types start with
  | error fault => simp [Except.map]
  | ok fields => simp [Except.map]

theorem eq_of_decode {schema : Schema} {data : Bytes} {start : Nat} {tuple : Tuple}
    (stored : schema.decode data start = .ok tuple) : tuple = Tuple.ofFields tuple.fields := by
  unfold decode at stored
  cases fields : decodeFields data schema.types start with
  | error fault => simp [fields, Except.map] at stored
  | ok list =>
    simp only [fields, Except.map, Except.ok.injEq] at stored
    subst stored
    rfl

end Schema

namespace HeapPage

/-- A slot's bit is set, but the slot is not legible. -/
def Spoilt (schema : Schema) (layout : PageLayout) (data : Bytes) (slot : Nat) : Prop :=
  data.bit slot = true ∧
    ¬Schema.Legible schema.types data (layout.headerLength + slot * layout.tupleWidth)

theorem mapM_eq_error {α β ε : Type} {f : α → Except ε β} {before behind : List α} {x : α}
    {failure : ε} (fine : ∀ y ∈ before, ∃ z, f y = .ok z) (bad : f x = .error failure) :
    (before ++ x :: behind).mapM f = .error failure := by
  induction before with
  | nil => simp [List.mapM_cons, bad, bind, Except.bind]
  | cons y before ih =>
    obtain ⟨z, first⟩ := fine y List.mem_cons_self
    rw [List.cons_append, List.mapM_cons, first,
      ih fun other member => fine other (List.mem_cons_of_mem y member)]
    rfl

theorem mapM_range_eq_error {α ε : Type} {f : Nat → Except ε α} {n i : Nat} {failure : ε}
    (inside : i < n) (bad : f i = .error failure) (fine : ∀ j < i, ∃ y, f j = .ok y) :
    (List.range n).mapM f = .error failure := by
  obtain ⟨before, behind, split⟩ := List.append_of_mem (List.mem_range.mpr inside)
  have ordered := List.pairwise_lt_range (n := n)
  rw [split] at ordered ⊢
  refine mapM_eq_error (fun j member => fine j ?_) bad
  exact (List.pairwise_append.mp ordered).2.2 j member i List.mem_cons_self

variable (id : PageId) {schema : Schema} {layout : PageLayout} {data : Bytes} {slot : Nat}

theorem exists_readSlot (valid : layout.Valid) (inside : slot < layout.numSlots)
    (fine : ¬Spoilt schema layout data slot) :
    ∃ entry, readSlot id schema layout (data.read 0 layout.headerLength).toArray data 0 slot =
      .ok entry := by
  have room := valid.header_room
  have bit := data.get_read (show slot < 8 * layout.headerLength by omega)
  cases used : data.bit slot with
  | false => exact ⟨none, readSlot_of_free (used ▸ bit)⟩
  | true =>
    have legible : Schema.Legible schema.types data
        (layout.headerLength + slot * layout.tupleWidth) := by
      by_contra illegible
      exact fine ⟨used, illegible⟩
    obtain ⟨tuple, decoded⟩ := Schema.exists_decode_iff.mpr legible
    rw [readSlot_of_used valid inside (used ▸ bit), Nat.zero_add, decoded]
    exact ⟨_, rfl⟩

theorem readSlot_of_spoilt (valid : layout.Valid) (inside : slot < layout.numSlots)
    (spoilt : Spoilt schema layout data slot) :
    ∃ fault, readSlot id schema layout (data.read 0 layout.headerLength).toArray data 0 slot =
      .error (.error (.corruptPage id (.badSlot slot fault))) := by
  have room := valid.header_room
  have bit := data.get_read (show slot < 8 * layout.headerLength by omega)
  rw [spoilt.1] at bit
  rw [readSlot_of_used valid inside bit, Nat.zero_add]
  cases decoded : schema.decode data (layout.headerLength + slot * layout.tupleWidth) with
  | ok tuple => exact absurd (Schema.exists_decode_iff.mp ⟨tuple, decoded⟩) spoilt.2
  | error fault => exact ⟨fault, rfl⟩

theorem ofBytes_of_spoilt (valid : layout.Valid) (length : data.length = layout.pageSize)
    (inside : slot < layout.numSlots) (spoilt : Spoilt schema layout data slot)
    (least : ∀ earlier < slot, ¬Spoilt schema layout data earlier) :
    ∃ fault, ofBytes id schema layout data =
      .error (.error (.corruptPage id (.badSlot slot fault))) := by
  obtain ⟨fault, bad⟩ := readSlot_of_spoilt id valid inside spoilt
  refine ⟨fault, ?_⟩
  rw [ofBytes, if_pos length, read]
  simp only [mapM_range_eq_error inside bad fun earlier low =>
    exists_readSlot id valid (low.trans inside) (least earlier low), bind, Except.bind]

theorem ofBytes_of_fine (valid : layout.Valid) (length : data.length = layout.pageSize)
    (fine : ∀ slot < layout.numSlots, ¬Spoilt schema layout data slot) :
    ∃ page, ofBytes id schema layout data = .ok page := by
  choose entry entries using fun slot : Fin layout.numSlots =>
    exists_readSlot id valid slot.isLt (fine slot slot.isLt)
  have slots : (List.range layout.numSlots).mapM (readSlot id schema layout
      (data.read 0 layout.headerLength).toArray data 0) = .ok (List.ofFn entry) := by
    rw [mapM_range_eq_ok_iff]
    refine ⟨List.length_ofFn, fun slot inside => ?_⟩
    rw [List.length_ofFn] at inside
    rw [entries ⟨slot, inside⟩, List.getElem_ofFn]
  rw [ofBytes, if_pos length, read]
  simp only [slots, bind, Except.bind]
  exact ⟨_, rfl⟩

variable {id}

theorem of_ofBytes {page : HeapPage} (decoded : ofBytes id schema layout data = .ok page) :
    data.length = layout.pageSize ∧
      (List.range layout.numSlots).mapM (readSlot id schema layout
        (data.read 0 layout.headerLength).toArray data 0) = .ok page.slots := by
  unfold ofBytes at decoded
  split at decoded
  · next length =>
    unfold read at decoded
    cases slots : (List.range layout.numSlots).mapM (readSlot id schema layout
        (data.read 0 layout.headerLength).toArray data 0) with
    | error failure => simp [slots, bind, Except.bind] at decoded
    | ok list =>
      simp only [slots, bind, Except.bind, pure, Except.pure, Except.ok.injEq] at decoded
      exact ⟨length, congrArg Except.ok (congrArg HeapPage.slots decoded)⟩
  · cases decoded

theorem exists_ofBytes_iff (valid : layout.Valid) :
    (∃ page, ofBytes id schema layout data = .ok page) ↔
      data.length = layout.pageSize ∧
        ∀ slot < layout.numSlots, ¬Spoilt schema layout data slot := by
  constructor
  · rintro ⟨page, decoded⟩
    have length := (of_ofBytes decoded).1
    refine ⟨length, fun slot => ?_⟩
    -- A spoilt slot would be preceded by a lowest one, and that fails the page.
    induction slot using Nat.strong_induction_on with
    | _ slot earlier =>
      intro inside spoilt
      obtain ⟨fault, failed⟩ := ofBytes_of_spoilt id valid length inside spoilt
        fun low less => earlier low less (less.trans inside)
      rw [failed] at decoded
      cases decoded
  · rintro ⟨length, fine⟩
    exact ofBytes_of_fine id valid length fine

theorem of_readSlot (valid : layout.Valid) (inside : slot < layout.numSlots)
    {entry : Option Tuple}
    (read : readSlot id schema layout (data.read 0 layout.headerLength).toArray data 0 slot =
      .ok entry) :
    entry.isSome = data.bit slot ∧ ∀ tuple, entry = some tuple →
      schema.decode data (layout.headerLength + slot * layout.tupleWidth) =
        .ok (Tuple.ofFields tuple.fields) := by
  have room := valid.header_room
  have bit := data.get_read (show slot < 8 * layout.headerLength by omega)
  cases used : data.bit slot with
  | false =>
    rw [readSlot_of_free (used ▸ bit), Except.ok.injEq] at read
    subst read
    exact ⟨rfl, fun tuple none => (by cases none)⟩
  | true =>
    rw [readSlot_of_used valid inside (used ▸ bit), Nat.zero_add] at read
    split at read
    · next tuple stored =>
      obtain rfl := Except.ok.inj read
      refine ⟨rfl, fun found same => ?_⟩
      obtain rfl := Option.some.inj same
      rw [stored, Schema.eq_of_decode stored]
      rfl
    · cases read

theorem slots_of_ofBytes (valid : layout.Valid) {page : HeapPage}
    (decoded : ofBytes id schema layout data = .ok page) (slot : Nat)
    (inside : slot < page.slots.length) :
    page.slots[slot].isSome = data.bit slot ∧ ∀ tuple, page.slots[slot] = some tuple →
      schema.decode data (layout.headerLength + slot * layout.tupleWidth) =
        .ok (Tuple.ofFields tuple.fields) := by
  obtain ⟨count, each⟩ := mapM_range_eq_ok_iff.mp (of_ofBytes decoded).2
  exact of_readSlot valid (count ▸ inside) (each slot inside)

end HeapPage
end PagedTables
