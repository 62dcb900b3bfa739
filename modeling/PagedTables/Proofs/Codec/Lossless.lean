import PagedTables.Proofs.Codec.Layout
import PagedTables.Proofs.Codec.Tuple

/-! What is lost when a validated tuple is stored: nothing, unless it has a string whose length four
bytes do not hold. -/

namespace PagedTables

/-- What the encoding of a tuple comes to. Its row is the same wherever it is put. -/
structure Schema.Stores (schema : Schema) (tuple : Tuple) (width start : Nat) (out result : Bytes) :
    Prop where
  length : result.length = out.length
  outside : result.AgreeOutside out start width
  holds : result.read start width = Schema.row schema.types tuple.fields
  decodes : (∃ other, schema.decode result start = .ok other ∧ other.fields = tuple.fields) ↔
    ∀ field ∈ tuple.fields, field.Short

namespace Schema

variable {schema : Schema} {width : Nat} {tuple : Tuple} {data : Bytes} {start : Nat}

theorem decode_fields_iff {fields : List Field} :
    (∃ tuple, schema.decode data start = .ok tuple ∧ tuple.fields = fields) ↔
      decodeFields data schema.types start = .ok fields := by
  unfold decode
  cases decodeFields data schema.types start with
  | error fault => simp [Except.map]
  | ok others => simp [Except.map, Tuple.ofFields]

/-- A tuple that was validated is encoded, into bytes that depend on it alone. It is decoded again just
if four bytes hold the length of each of its strings. -/
theorem encode_stores (sized : schema.width = .ok width) (valid : schema.validate tuple = .ok ())
    (start : Nat) (out : Bytes) (room : start + width ≤ out.length) :
    ∃ result, schema.encode tuple start out = .ok result ∧
      schema.Stores tuple width start out result := by
  obtain rfl := width_eq sized
  have conforms := validate_eq_ok_iff.mp valid
  obtain ⟨result, encoded, encodes⟩ := exists_encodeFields conforms start out
  exact ⟨result, encoded, {
    length := encodes.length room
    outside := encodes.outside
    holds := encodes.holds
    decodes := decode_fields_iff.trans (decodeFields_eq_ok_iff conforms encodes.holds) }⟩

/-- Whatever was there before, a number and a string take the same bytes and are decoded again. -/
theorem encode_stores_names :
    let schema : Schema := ⟨[.int, .str 7], by decide⟩
    let tuple := Tuple.ofFields [.int (-2), .str "naïve"]
    ∃ result, schema.encode tuple 0 (.ofList (List.replicate 15 7)) = .ok result ∧
      result.read 0 15 = [255, 255, 255, 254, 0, 0, 0, 6, 110, 97, 195, 175, 118, 101, 0] ∧
      ∃ other, schema.decode result 0 = .ok other ∧ other.fields = tuple.fields := by
  intro schema tuple
  have sized : schema.width = .ok 15 := by decide
  have valid : schema.validate tuple = .ok () := by decide
  obtain ⟨result, encoded, stores⟩ :=
    encode_stores sized valid 0 (.ofList (List.replicate 15 7)) (by decide +kernel)
  refine ⟨result, encoded, stores.holds.trans (by decide +kernel), stores.decodes.mpr ?_⟩
  intro field member
  rcases List.mem_pair.mp member with rfl | rfl
  · trivial
  · show (6 : Nat) < 2 ^ 32
    decide

theorem exists_utf8ByteSize (size : Nat) : ∃ value : String, value.utf8ByteSize = size := by
  induction size with
  | zero => exact ⟨"", rfl⟩
  | succ size ih =>
    obtain ⟨value, same⟩ := ih
    exact ⟨value ++ "a", by rw [String.utf8ByteSize_append, same]; rfl⟩

/-- A string of 2 ^ 32 bytes is validated where its column admits it, and is not decoded again: the
length that is stored for it is 0. -/
theorem not_encode_lossless :
    ¬∀ (schema : Schema) (width : Nat) (tuple : Tuple) (out : Bytes),
      schema.width = .ok width → schema.validate tuple = .ok () → out.length = width →
      ∃ result, schema.encode tuple 0 out = .ok result ∧
        ∃ other, schema.decode result 0 = .ok other ∧ other.fields = tuple.fields := by
  intro lossless
  obtain ⟨value, size⟩ := exists_utf8ByteSize (2 ^ 32)
  let schema : Schema := ⟨[.str (2 ^ 32)], by decide⟩
  let tuple := Tuple.ofFields [.str value]
  have sized : schema.width = .ok (4 + 2 ^ 32) := by decide
  have valid : schema.validate tuple = .ok () := by
    refine validate_eq_ok_iff.mpr (.cons ?_ .nil)
    simp [FieldType.admits, size]
  let out := Bytes.zeros (4 + 2 ^ 32)
  obtain ⟨result, encoded, decoded⟩ := lossless schema _ tuple out sized valid rfl
  obtain ⟨again, same, stores⟩ := encode_stores sized valid 0 out (by decide)
  obtain rfl := Except.ok.inj (same.symm.trans encoded)
  have short : value.utf8ByteSize < 2 ^ 32 := stores.decodes.mp decoded _ List.mem_cons_self
  exact absurd size (Nat.ne_of_lt short)

end Schema
end PagedTables
