import PagedTables.Page.Bitmap

/-! Laws of the occupancy bits: a bit that is set reads back, and no other bit is changed. -/

namespace PagedTables.Bitmap

theorem toBitVec_mask (slot : Nat) : (mask slot).toBitVec = BitVec.twoPow 8 (slot % 8) := by
  have masks : ∀ i : Fin 8,
      ((1 : UInt8) <<< UInt8.ofNat i.val).toBitVec = BitVec.twoPow 8 i.val := by decide
  exact masks ⟨slot % 8, Nat.mod_lt _ (by decide)⟩

theorem and_mask_ne_zero (byte : UInt8) (slot : Nat) :
    (byte &&& mask slot != 0) = byte.toBitVec.getLsbD (slot % 8) := by
  have small : slot % 8 < 8 := Nat.mod_lt _ (by decide)
  have test : (byte &&& mask slot = 0) ↔ byte.toBitVec.getLsbD (slot % 8) = false := by
    rw [← UInt8.toBitVec_inj, UInt8.toBitVec_and, toBitVec_mask, BitVec.and_twoPow]
    have nonzero : BitVec.twoPow 8 (slot % 8) ≠ 0 := by
      intro zero
      have bit := congrArg (BitVec.getLsbD · (slot % 8)) zero
      simp [small] at bit
    cases byte.toBitVec.getLsbD (slot % 8) with
    | true => simpa using nonzero
    | false => simp
  rw [Bool.eq_iff_iff, bne_iff_ne, ne_eq, test, Bool.not_eq_false]

def setBit (byte : UInt8) (slot : Nat) (used : Bool) : UInt8 :=
  if used then byte ||| mask slot else byte &&& ~~~mask slot

theorem getLsbD_setBit (byte : UInt8) {slot other : Nat} (used : Bool) :
    (setBit byte slot used).toBitVec.getLsbD (other % 8) =
      if other % 8 = slot % 8 then used else byte.toBitVec.getLsbD (other % 8) := by
  have small : other % 8 < 8 := Nat.mod_lt _ (by decide)
  unfold setBit
  cases used with
  | true =>
    rw [if_pos rfl, UInt8.toBitVec_or, toBitVec_mask, BitVec.getLsbD_or, BitVec.getLsbD_twoPow]
    by_cases same : other % 8 = slot % 8
    · rw [same] at small ⊢
      simp [small]
    · simp [same, Ne.symm same]
  | false =>
    rw [if_neg Bool.false_ne_true, UInt8.toBitVec_and, UInt8.toBitVec_not, toBitVec_mask,
      BitVec.getLsbD_and, BitVec.getLsbD_not, BitVec.getLsbD_twoPow]
    by_cases same : other % 8 = slot % 8
    · rw [same] at small ⊢
      simp [small]
    · simp [same, Ne.symm same, small]

theorem get_eq {header : Array UInt8} {slot : Nat} (inside : slot / 8 < header.size) :
    get header slot = .ok (header[slot / 8].toBitVec.getLsbD (slot % 8)) := by
  rw [get, Array.getElem?_eq_getElem inside]
  simp only [and_mask_ne_zero]

theorem set_eq {header : Array UInt8} {slot : Nat} (inside : slot / 8 < header.size) (used : Bool) :
    set header slot used =
      .ok (header.setIfInBounds (slot / 8) (setBit header[slot / 8] slot used)) := by
  rw [set, Array.getElem?_eq_getElem inside]
  rfl

theorem exists_set {header : Array UInt8} {slot : Nat} (inside : slot / 8 < header.size)
    (used : Bool) :
    ∃ result, set header slot used = .ok result ∧ result.size = header.size ∧
      ∀ other, other / 8 < header.size →
        get result other = if other = slot then .ok used else get header other := by
  refine ⟨_, set_eq inside used, by simp, ?_⟩
  intro other bound
  rw [get_eq (by simpa using bound), get_eq bound, Array.getElem_setIfInBounds bound]
  -- In the byte of the slot, its mask tells its bit from the other seven.
  by_cases byte : slot / 8 = other / 8
  · simp only [byte, ↓reduceIte, getLsbD_setBit]
    by_cases same : other = slot
    · simp [same]
    · have bits : other % 8 ≠ slot % 8 := by omega
      simp [same, bits]
  · have apart : other ≠ slot := by
      rintro rfl
      exact byte rfl
    simp [byte, apart]

theorem get_replicate {size slot : Nat} (inside : slot / 8 < size) :
    get (Array.replicate size 0) slot = .ok false := by
  rw [get_eq (by simpa using inside)]
  simp

end PagedTables.Bitmap
