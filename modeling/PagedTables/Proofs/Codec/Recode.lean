import PagedTables.Proofs.Codec.Legible

/-! Rows that are read and written again. The bytes that their values take are kept; the others come
out zero. -/

namespace PagedTables

def Kept (keep : Prop) (source byte : UInt8) : Prop :=
  (keep → byte = source) ∧ (¬keep → byte = 0)

theorem Kept.getLsbD {keep : Prop} {source byte : UInt8} (kept : Kept keep source byte) (j : Nat) :
    byte.toBitVec.getLsbD j = true ↔ source.toBitVec.getLsbD j = true ∧ keep := by
  by_cases h : keep
  · simp [kept.1 h, h]
  · simp [kept.2 h, h]

theorem Kept.congr {keep keep' : Prop} {source byte : UInt8} (kept : Kept keep source byte)
    (same : keep ↔ keep') : Kept keep' source byte :=
  ⟨fun h => kept.1 (same.mpr h), fun h => kept.2 fun h' => h (same.mp h')⟩

def FieldType.span (data : Bytes) (start : Nat) : FieldType → Nat
  | .int => 4
  | .str _ => 4 + data.word start

theorem FieldType.cell_of_read {type : FieldType} {data : Bytes} {start : Nat} {field : Field}
    (h : type.read data start = .ok field) :
    type.span data start ≤ type.size ∧
      field.cell type.size = .ok (data.read start (type.span data start)) := by
  cases type with
  | int =>
    simp only [read, Except.ok.injEq] at h
    subst h
    have word : (BigEndian.decode (data.read start 4)).toInt32.toUInt32 =
        BigEndian.decode (data.read start 4) := rfl
    refine ⟨Nat.le_refl 4, ?_⟩
    simp only [Field.cell, size, ↓reduceIte, word, span]
    rw [Bytes.read_four, BigEndian.encode_decode]
  | str limit =>
    simp only [read, Bytes.toNat_decode_read] at h
    split at h
    · next fits =>
      split at h
      · next text decoded =>
        cases h
        have bytes := Text.Utf8.encode_of_decode decoded
        have number : UInt32.ofNat (data.word start) = BigEndian.decode (data.read start 4) := by
          rw [← Bytes.toNat_decode_read, UInt32.ofNat_toNat]
        refine ⟨by simp only [span, size]; omega, ?_⟩
        simp only [Field.cell, bytes, Bytes.length_read, size, span]
        rw [if_pos (by omega), number, Bytes.read_add, Bytes.read_four, BigEndian.encode_decode]
      · cases h
    · cases h

namespace Schema

def Keeps (types : List FieldType) (data : Bytes) (start offset : Nat) : Prop :=
  ∃ column type, types[column]? = some type ∧ start + sizes (types.take column) ≤ offset ∧
    offset < start + sizes (types.take column) +
      type.span data (start + sizes (types.take column))

theorem keeps_cons {type : FieldType} {types : List FieldType} {data : Bytes} {start offset : Nat} :
    Keeps (type :: types) data start offset ↔
      (start ≤ offset ∧ offset < start + type.span data start) ∨
        Keeps types data (start + type.size) offset := by
  constructor
  · rintro ⟨column, found, entry, low, high⟩
    cases column with
    | zero =>
      obtain rfl : type = found := by simpa using entry
      exact .inl ⟨low, high⟩
    | succ column =>
      rw [List.take_succ_cons, sizes, ← Nat.add_assoc] at low high
      exact .inr ⟨column, found, entry, low, high⟩
  · rintro (⟨low, high⟩ | ⟨column, found, entry, low, high⟩)
    · exact ⟨0, type, rfl, low, high⟩
    · refine ⟨column + 1, found, entry, ?_⟩
      rw [List.take_succ_cons, sizes, ← Nat.add_assoc]
      exact ⟨low, high⟩

theorem window_of_keeps {types : List FieldType} {data : Bytes} {start offset : Nat}
    {fields : List Field} (decoded : decodeFields data types start = .ok fields)
    (keeps : Keeps types data start offset) : start ≤ offset ∧ offset < start + sizes types := by
  induction types generalizing start fields with
  | nil =>
    obtain ⟨column, found, entry, _⟩ := keeps
    simp at entry
  | cons type types ih =>
    rw [decodeFields] at decoded
    cases first : type.read data start with
    | error fault => simp [first, bind, Except.bind] at decoded
    | ok field =>
    cases rest : decodeFields data types (start + type.size) with
    | error fault => simp [first, rest, bind, Except.bind] at decoded
    | ok others =>
      have fits := (FieldType.cell_of_read first).1
      rw [sizes]
      rcases keeps_cons.mp keeps with ⟨low, high⟩ | later
      · omega
      · have := ih rest later
        omega

structure Recodes (types : List FieldType) (data : Bytes) (start : Nat) (out result : Bytes) :
    Prop where
  outside : Bytes.AgreeOutside result out start (sizes types)
  inside : ∀ offset, start ≤ offset → offset < start + sizes types →
    Kept (Keeps types data start offset) (data.byte offset) (result.byte offset)

theorem exists_recode {types : List FieldType} {data : Bytes} {start : Nat} {fields : List Field}
    (decoded : decodeFields data types start = .ok fields) (out : Bytes) :
    ∃ result, encodeFields types fields start out = .ok result ∧
      Recodes types data start out result := by
  induction types generalizing start fields out with
  | nil =>
    refine ⟨out, by cases fields <;> rfl, .refl out start _, fun offset low high => ?_⟩
    rw [sizes] at high
    omega
  | cons type types ih =>
    rw [decodeFields] at decoded
    cases first : type.read data start with
    | error fault => simp [first, bind, Except.bind] at decoded
    | ok field =>
    cases rest : decodeFields data types (start + type.size) with
    | error fault => simp [first, rest, bind, Except.bind] at decoded
    | ok others =>
    simp only [first, rest, bind, Except.bind, pure, Except.pure, Except.ok.injEq] at decoded
    subst decoded
    obtain ⟨fits, cell⟩ := FieldType.cell_of_read first
    obtain ⟨result, encoded, recodes⟩ := ih rest
      ((out.clear start type.size).write start (data.read start (type.span data start)))
    have after : ∀ offset, offset < start + type.size →
        ¬Keeps types data (start + type.size) offset := fun offset low keeps => by
      have := window_of_keeps rest keeps
      omega
    refine ⟨result, ?_, ?_, fun offset low high => ?_⟩
    · rw [encodeFields, cell]
      exact encoded
    · have written := Bytes.write_agreeOutside (out.clear start type.size) start
        (data.read start (type.span data start))
      rw [Bytes.length_read] at written
      rw [sizes]
      exact (recodes.outside.mono (by omega) (by omega)).trans
        ((written.mono (Nat.le_refl _) (by omega)).trans
          ((Bytes.clear_agreeOutside out start type.size).mono (by omega) (by omega)))
    · rw [sizes] at high
      by_cases mine : offset < start + type.size
      · -- The later cells leave this one alone: its value, and zeros behind it.
        have kept : Kept (start ≤ offset ∧ offset < start + type.span data start) (data.byte offset)
            (result.byte offset) := by
          rw [recodes.outside offset (.inl mine), Bytes.byte_write, Bytes.byte_clear]
          constructor
          · rintro ⟨_, inner⟩
            rw [dif_pos ⟨low, by rw [Bytes.length_read]; omega⟩, Bytes.getElem_read,
              Nat.add_sub_cancel' low]
          · intro behind
            rw [dif_neg (by rw [Bytes.length_read]; omega), if_pos ⟨low, mine⟩]
        refine kept.congr ?_
        rw [keeps_cons, or_iff_left (after offset mine)]
      · refine (recodes.inside offset (by omega) (by omega)).congr ?_
        rw [keeps_cons, or_iff_right (by omega)]

end Schema

end PagedTables
