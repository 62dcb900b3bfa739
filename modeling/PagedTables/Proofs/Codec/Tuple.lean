import Mathlib.Data.List.Forall2
import Mathlib.Tactic.Ring
import PagedTables.Proofs.Codec.Window
import PagedTables.Schema.Encoding

/-! Stored tuples read back. A tuple of a schema's shape is put in its window and nowhere else, in
bytes of its own; the same fields are read from them if four bytes hold the length of each string. And
whatever is read from a window has the schema's shape. -/

namespace PagedTables

def Conforms (types : List FieldType) (fields : List Field) : Prop :=
  List.Forall₂ (fun type field => type.admits field = true) types fields

namespace Schema

theorem misfit?_eq_none_iff {fields : List Field} {types : List FieldType} (index : Nat)
    (same : fields.length = types.length) :
    misfit? index fields types = none ↔ Conforms types fields := by
  unfold Conforms
  induction types generalizing fields index with
  | nil =>
    obtain rfl := List.length_eq_zero_iff.mp same
    simp [misfit?]
  | cons type types ih =>
    obtain ⟨field, rest, rfl⟩ := List.exists_cons_of_length_eq_add_one same
    rw [misfit?, List.forall₂_cons]
    split
    · next admitted => rw [ih (index + 1) (by simpa using same), and_iff_right admitted]
    · next other => simp [other]

theorem validate_eq_ok_iff {schema : Schema} {tuple : Tuple} :
    schema.validate tuple = .ok () ↔ Conforms schema.types tuple.fields := by
  unfold validate mismatch?
  by_cases same : tuple.fields.length = schema.types.length
  · rw [if_pos same, ← misfit?_eq_none_iff 0 same]
    cases misfit? 0 tuple.fields schema.types <;> simp
  · rw [if_neg same]
    simp only [reduceCtorEq, false_iff]
    exact fun conforms => same conforms.length_eq.symm

end Schema

namespace Field

def padded (size : Nat) : Field → List UInt8
  | .int value => BigEndian.encode value.toUInt32
  | .str value => BigEndian.encode (UInt32.ofNat value.utf8ByteSize) ++
      (Text.Utf8.encode value ++ List.replicate (size - 4 - value.utf8ByteSize) 0)

def Short : Field → Prop
  | .int _ => True
  | .str value => value.utf8ByteSize < 2 ^ 32

end Field

inductive FieldType.Holds : FieldType → Field → Prop
  | int (value : Int32) : Holds .int (.int value)
  | str {limit : Nat} {value : String} (fits : value.utf8ByteSize ≤ limit) :
      Holds (.str limit) (.str value)

theorem FieldType.holds_of_admits {type : FieldType} {field : Field}
    (admitted : type.admits field = true) : type.Holds field := by
  cases type with
  | int =>
    cases field with
    | int value => exact .int value
    | str value => cases admitted
  | str limit =>
    cases field with
    | int value => cases admitted
    | str value => exact .str (of_decide_eq_true admitted)

namespace Field

variable {type : FieldType} {field : Field}

theorem length_padded (holds : type.Holds field) : (field.padded type.size).length = type.size := by
  cases holds with
  | int value => rfl
  | str fits =>
    simp only [padded, FieldType.size, List.length_append, BigEndian.length_encode,
      Text.Utf8.length_encode, List.length_replicate]
    omega

theorem exists_cell (holds : type.Holds field) :
    ∃ cell, field.cell type.size = .ok cell ∧ cell.length ≤ type.size ∧
      field.padded type.size = cell ++ List.replicate (type.size - cell.length) 0 := by
  cases holds with
  | int value => exact ⟨BigEndian.encode value.toUInt32, rfl, Nat.le_refl 4, rfl⟩
  | @str limit value fits =>
    have length : (Text.Utf8.encode value).length = value.utf8ByteSize := Text.Utf8.length_encode _
    simp only [FieldType.size]
    refine ⟨_, if_pos (by omega), ?_, ?_⟩
    · simp only [List.length_append, BigEndian.length_encode]
      omega
    · rw [padded, length, List.append_assoc, List.length_append, BigEndian.length_encode, length,
        Nat.sub_add_eq]

end Field

theorem BigEndian.decode_encode (word : UInt32) : decode (encode word) = word := by
  have whole := decode_encode_append word []
  rwa [List.append_nil] at whole

theorem FieldType.read_eq_ok_iff {type : FieldType} {field : Field} {data : Bytes} {start : Nat}
    (holds : type.Holds field) (stored : data.read start type.size = field.padded type.size) :
    type.read data start = .ok field ↔ field.Short := by
  cases holds with
  | int value =>
    have stored : data.read start 4 = BigEndian.encode value.toUInt32 := stored
    rw [read, stored, BigEndian.decode_encode]
    exact iff_of_true rfl trivial
  | @str limit value fits =>
    rw [size, Bytes.read_add, Field.padded] at stored
    obtain ⟨prefixed, rest⟩ := List.append_inj stored (by simp)
    have counted : (UInt32.ofNat value.utf8ByteSize).toNat = value.utf8ByteSize % 2 ^ 32 :=
      UInt32.toNat_ofNat'
    have below : value.utf8ByteSize % 2 ^ 32 ≤ limit := (Nat.mod_le _ _).trans fits
    simp only [read, prefixed, BigEndian.decode_encode, counted, if_pos below]
    constructor
    · intro same
      split at same
      · next text decoded =>
        obtain rfl := Field.str.inj (Except.ok.inj same)
        have bytes := congrArg List.length (Text.Utf8.encode_of_decode decoded)
        rw [Text.Utf8.length_encode, Bytes.length_read] at bytes
        rw [Field.Short, bytes]
        exact Nat.mod_lt _ (by decide)
      · cases same
    · intro short
      have split := Bytes.read_add data (start + 4) value.utf8ByteSize (limit - value.utf8ByteSize)
      rw [Nat.add_sub_cancel' fits, rest] at split
      have text := (List.append_inj split (by simp)).1
      rw [Nat.mod_eq_of_lt short, ← text, Text.Utf8.decode_encode]

theorem FieldType.admits_of_read {type : FieldType} {data : Bytes} {start : Nat} {field : Field}
    (h : type.read data start = .ok field) : type.admits field = true := by
  cases type with
  | int =>
    simp only [FieldType.read, Except.ok.injEq] at h
    subst h
    rfl
  | str limit =>
    simp only [FieldType.read] at h
    split at h
    · next fits =>
      split at h
      · next value decoded =>
        cases h
        have size := Text.Utf8.length_encode value
        rw [Text.Utf8.encode_of_decode decoded, Bytes.length_read] at size
        simp only [FieldType.admits, decide_eq_true_eq]
        omega
      · cases h
    · cases h

namespace Schema

def row : List FieldType → List Field → List UInt8
  | type :: types, field :: fields => field.padded type.size ++ row types fields
  | _, _ => []

structure Encodes (types : List FieldType) (fields : List Field) (start : Nat) (out result : Bytes) :
    Prop where
  outside : Bytes.AgreeOutside result out start (sizes types)
  length : start + sizes types ≤ out.length → result.length = out.length
  holds : result.read start (sizes types) = row types fields

theorem exists_encodeFields {types : List FieldType} {fields : List Field}
    (conforms : Conforms types fields) (start : Nat) (out : Bytes) :
    ∃ result, encodeFields types fields start out = .ok result ∧
      Encodes types fields start out result := by
  unfold Conforms at conforms
  induction conforms generalizing start out with
  | nil => exact ⟨out, rfl, .refl out start _, fun _ => rfl, rfl⟩
  | @cons type field types fields admitted _ ih =>
    obtain ⟨cell, stored, fits, padded⟩ := Field.exists_cell (FieldType.holds_of_admits admitted)
    obtain ⟨result, rest, encodes⟩ := ih (start + type.size)
      ((out.clear start type.size).write start cell)
    have kept : Bytes.AgreeOutside ((out.clear start type.size).write start cell) out start
        type.size :=
      ((Bytes.write_agreeOutside _ start cell).mono (Nat.le_refl _) (by omega)).trans
        (Bytes.clear_agreeOutside out start type.size)
    refine ⟨result, ?_, ?_, ?_, ?_⟩
    · rw [encodeFields, stored]
      exact rest
    · rw [sizes]
      exact (encodes.outside.mono (by omega) (by omega)).trans (kept.mono (by omega) (by omega))
    · intro inside
      rw [sizes] at inside
      have room : start + type.size ≤ out.length := by omega
      have cleared := Bytes.length_clear_of_le room
      have within : start + cell.length ≤ (out.clear start type.size).length := by omega
      have written := Bytes.length_write_of_le within
      rw [encodes.length (by omega), written, cleared]
    · -- The later fields are put behind this one and leave its cell alone.
      have first : Bytes.Agree result ((out.clear start type.size).write start cell) start
          type.size := encodes.outside.agree (.inl (Nat.le_refl _))
      rw [sizes, Bytes.read_add, encodes.holds, Bytes.read_congr first,
        Bytes.read_write_clear fits, row, padded]

theorem decodeFields_eq_ok_iff {types : List FieldType} {fields : List Field} {data : Bytes}
    {start : Nat} (conforms : Conforms types fields)
    (holds : data.read start (sizes types) = row types fields) :
    decodeFields data types start = .ok fields ↔ ∀ field ∈ fields, field.Short := by
  unfold Conforms at conforms
  induction conforms generalizing start with
  | nil => simp [decodeFields]
  | @cons type field types fields admitted _ ih =>
    have taken := FieldType.holds_of_admits admitted
    rw [sizes, Bytes.read_add, row] at holds
    obtain ⟨here, behind⟩ := List.append_inj holds (by simp [Field.length_padded taken])
    rw [List.forall_mem_cons, ← FieldType.read_eq_ok_iff taken here, ← ih behind, decodeFields]
    cases type.read data start with
    | error fault => simp [bind, Except.bind]
    | ok first =>
      cases decodeFields data types (start + type.size) with
      | error fault => simp [bind, Except.bind]
      | ok others => simp [bind, Except.bind, pure, Except.pure]

theorem short_of_sizes {types : List FieldType} {fields : List Field}
    (conforms : Conforms types fields) (small : sizes types < 2 ^ 32) :
    ∀ field ∈ fields, field.Short := by
  unfold Conforms at conforms
  induction conforms with
  | nil => simp
  | @cons type field types fields admitted _ ih =>
    rw [sizes] at small
    refine List.forall_mem_cons.mpr ⟨?_, ih (by omega)⟩
    cases FieldType.holds_of_admits admitted with
    | int value => trivial
    | str fits =>
      simp only [FieldType.size] at small
      exact fits.trans_lt (by omega)

theorem Encodes.decodes {types : List FieldType} {fields : List Field} {start : Nat}
    {out result data : Bytes} (encodes : Encodes types fields start out result)
    (conforms : Conforms types fields) (small : sizes types < 2 ^ 32)
    (agree : Bytes.Agree data result start (sizes types)) :
    decodeFields data types start = .ok fields :=
  (decodeFields_eq_ok_iff conforms ((Bytes.read_congr agree).trans encodes.holds)).mpr
    (short_of_sizes conforms small)

theorem conforms_of_decodeFields {data : Bytes} {types : List FieldType} {start : Nat}
    {fields : List Field} (h : decodeFields data types start = .ok fields) :
    Conforms types fields := by
  unfold Conforms
  induction types generalizing start fields with
  | nil =>
    simp only [decodeFields, Except.ok.injEq] at h
    subst h
    exact .nil
  | cons type types ih =>
    rw [decodeFields] at h
    cases first : type.read data start with
    | error fault => simp [first, bind, Except.bind] at h
    | ok field =>
      cases rest : decodeFields data types (start + type.size) with
      | error fault => simp [first, rest, bind, Except.bind] at h
      | ok others =>
        simp only [first, rest, bind, Except.bind, pure, Except.pure, Except.ok.injEq] at h
        subst h
        exact .cons (FieldType.admits_of_read first) (ih rest)

theorem decodeFields_congr {a b : Bytes} {types : List FieldType} {start : Nat}
    (agree : Bytes.Agree a b start (sizes types)) :
    decodeFields a types start = decodeFields b types start := by
  induction types generalizing start with
  | nil => rfl
  | cons type types ih =>
    rw [sizes] at agree
    have rest := ih (agree.sub (Nat.le_add_right start type.size) (by omega))
    have size := type.four_le_size
    have number : a.read start 4 = b.read start 4 :=
      Bytes.read_congr (agree.sub (Nat.le_refl _) (by omega))
    have first : type.read a start = type.read b start := by
      cases type with
      | int => simp only [FieldType.read, number]
      | str limit =>
        simp only [FieldType.read, number]
        split
        · next fits =>
          simp only [FieldType.size] at agree
          rw [Bytes.read_congr (agree.sub (by omega) (by omega))]
        · rfl
    simp only [decodeFields, first, rest]

theorem validate_of_decode {schema : Schema} {data : Bytes} {start : Nat} {tuple : Tuple}
    (h : schema.decode data start = .ok tuple) (record : Option RecordId) :
    schema.validate (tuple.setRecordId record) = .ok () := by
  unfold decode at h
  cases fields : decodeFields data schema.types start with
  | error fault => simp [fields, Except.map] at h
  | ok list =>
    simp only [fields, Except.map, Except.ok.injEq] at h
    subst h
    exact validate_eq_ok_iff.mpr (conforms_of_decodeFields fields)

theorem decode_congr {schema : Schema} {a b : Bytes} {start : Nat}
    (agree : Bytes.Agree a b start schema.size) :
    schema.decode a start = schema.decode b start := by
  rw [decode, decode, decodeFields_congr agree]

end Schema
end PagedTables
