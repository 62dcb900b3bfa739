import Mathlib.Algebra.Order.Floor.Div
import Mathlib.Order.Bounds.Defs
import PagedTables.Proofs.Codec.Layout

/-! How much of a page its slots take. Their number comes from one division of bits and the bitmap is
rounded up to bytes apart from that; still no page has room for a slot more. -/

namespace PagedTables.PageLayout

def bytesFor (tupleWidth count : Nat) : Nat := count ⌈/⌉ 8 + count * tupleWidth

/-- A page of this size is made use of as well as it can be. Its slots lie one beside another, behind a
bitmap that is not longer than they need. -/
structure Packs (pageSize tupleWidth : Nat) (layout : PageLayout) : Prop where
  sized : layout.pageSize = pageSize
  wide : layout.tupleWidth = tupleWidth
  bitmap : IsLeast {length | layout.numSlots ≤ 8 * length} layout.headerLength
  most : IsGreatest {count | bytesFor tupleWidth count ≤ pageSize} layout.numSlots
  ranges : ∀ slot < layout.numSlots, ∃ start,
    layout.slotRange slot = .ok (start, start + tupleWidth) ∧
      layout.headerLength ≤ start ∧ start + tupleWidth ≤ pageSize
  apart : ∀ slot < layout.numSlots, ∀ other < layout.numSlots, slot ≠ other →
    ∀ start stop start' stop', layout.slotRange slot = .ok (start, stop) →
      layout.slotRange other = .ok (start', stop') → stop ≤ start' ∨ stop' ≤ start

variable {layout : PageLayout} {pageSize tupleWidth count : Nat}

theorem bytesFor_le_iff :
    bytesFor tupleWidth count ≤ pageSize ↔ count * (tupleWidth * 8 + 1) ≤ pageSize * 8 := by
  have bits : count * (tupleWidth * 8 + 1) = 8 * (count * tupleWidth) + count := by ring
  rw [bytesFor, Nat.ceilDiv_eq_add_pred_div, bits]
  omega

theorem bytesFor_one (tupleWidth : Nat) : bytesFor tupleWidth 1 = 1 + tupleWidth := by
  rw [bytesFor, Nat.one_mul]
  rfl

theorem isGreatest_bytesFor (pageSize tupleWidth : Nat) :
    IsGreatest {count | bytesFor tupleWidth count ≤ pageSize}
      (pageSize * 8 / (tupleWidth * 8 + 1)) := by
  refine ⟨bytesFor_le_iff.mpr (Nat.div_mul_le_self _ _), fun count fits => ?_⟩
  exact (Nat.le_div_iff_mul_le (Nat.succ_pos _)).mpr (bytesFor_le_iff.mp fits)

theorem isLeast_bitmap (count : Nat) : IsLeast {length | count ≤ 8 * length} ((count + 7) / 8) := by
  constructor
  · show count ≤ 8 * ((count + 7) / 8)
    omega
  · intro length room
    have room : count ≤ 8 * length := room
    omega

theorem Laid.ranges_apart (laid : layout.Laid) (addressable : layout.pageSize < wordBound)
    {slot other start stop start' stop' : Nat} (inside : slot < layout.numSlots)
    (inside' : other < layout.numSlots) (distinct : slot ≠ other)
    (range : layout.slotRange slot = .ok (start, stop))
    (range' : layout.slotRange other = .ok (start', stop')) : stop ≤ start' ∨ stop' ≤ start := by
  have before : ∀ {first second : Nat}, first < second →
      layout.headerLength + first * layout.tupleWidth + layout.tupleWidth ≤
        layout.headerLength + second * layout.tupleWidth := by
    intro first second less
    have step := Nat.mul_le_mul_right layout.tupleWidth less
    rw [Nat.succ_mul] at step
    omega
  rw [laid.slotRange_eq addressable inside] at range
  rw [laid.slotRange_eq addressable inside'] at range'
  obtain ⟨rfl, rfl⟩ := Prod.mk.inj (Except.ok.inj range)
  obtain ⟨rfl, rfl⟩ := Prod.mk.inj (Except.ok.inj range')
  exact (Nat.lt_or_gt_of_ne distinct).imp before before

section Sizes

variable (bits : pageSize * 8 < wordBound) (cost : tupleWidth * 8 + 1 < wordBound)
include bits cost

theorem slotsFor_eq :
    slotsFor pageSize tupleWidth =
      .ok (if tupleWidth = 0 then 0 else pageSize * 8 / (tupleWidth * 8 + 1)) := by
  unfold slotsFor
  split
  · rfl
  · rw [mulSized_of_lt bits, mulSized_of_lt (Nat.lt_of_succ_lt cost)]
    simp only [bind, Except.bind, addSized_of_lt cost]
    rfl

theorem forSizes_eq :
    forSizes pageSize tupleWidth =
      if tupleWidth = 0 ∨ pageSize < 1 + tupleWidth then
        .error (.error (.tupleTooWide tupleWidth pageSize))
      else
        let numSlots := pageSize * 8 / (tupleWidth * 8 + 1)
        .ok { pageSize, tupleWidth, numSlots, headerLength := (numSlots + 7) / 8 } := by
  have none : (if tupleWidth = 0 then 0 else pageSize * 8 / (tupleWidth * 8 + 1)) = 0 ↔
      tupleWidth = 0 ∨ pageSize < 1 + tupleWidth := by
    split
    · next zero => exact iff_of_true rfl (.inl zero)
    · next some =>
      rw [Nat.div_eq_zero_iff_lt (Nat.succ_pos _), or_iff_right some, ← Nat.not_le, ← Nat.not_le,
        ← bytesFor_one, bytesFor_le_iff, Nat.one_mul]
  rw [forSizes, slotsFor_eq bits cost]
  simp only [bind, Except.bind, none]
  split
  · rfl
  · next laid => rw [if_neg fun zero => laid (.inl zero)]

theorem packs_of_forSizes (laid : forSizes pageSize tupleWidth = .ok layout) :
    layout.Packs pageSize tupleWidth := by
  obtain ⟨placed, -, -⟩ := laid_of_forSizes laid
  rw [forSizes_eq bits cost] at laid
  split at laid
  · cases laid
  · obtain rfl := Except.ok.inj laid
    have addressable : pageSize < wordBound := by omega
    exact {
      sized := rfl
      wide := rfl
      bitmap := isLeast_bitmap _
      most := isGreatest_bytesFor pageSize tupleWidth
      ranges := fun slot inside =>
        ⟨_, placed.slotRange_eq addressable inside, Nat.le_add_right _ _, placed.slot_within inside⟩
      apart := fun _ inside _ inside' distinct _ _ _ _ =>
        placed.ranges_apart addressable inside inside' distinct }

/-- Pages are laid out unless their tuples take no byte or not even one of them fits with its bit, and
there is no other reason to refuse; then every slot has its place, and no page could have more. -/
theorem forSizes_packs :
    (forSizes pageSize tupleWidth = .error (.error (.tupleTooWide tupleWidth pageSize)) ↔
      tupleWidth = 0 ∨ pageSize < 1 + tupleWidth) ∧
    (¬(tupleWidth = 0 ∨ pageSize < 1 + tupleWidth) →
      ∃ layout, forSizes pageSize tupleWidth = .ok layout ∧ layout.Packs pageSize tupleWidth) := by
  have shape := forSizes_eq bits cost
  by_cases refused : tupleWidth = 0 ∨ pageSize < 1 + tupleWidth
  · rw [if_pos refused] at shape
    exact ⟨iff_of_true shape refused, fun accepted => absurd refused accepted⟩
  · rw [if_neg refused] at shape
    refine ⟨iff_of_false (fun failed => ?_) refused, fun _ => ⟨_, shape, ?_⟩⟩
    · cases shape.symm.trans failed
    · exact packs_of_forSizes bits cost shape

end Sizes

/-- A tuple and the byte of its bit fill a page of 64 bytes; one byte more is too much. -/
theorem forSizes_packs_full :
    forSizes 64 63 = .ok ⟨64, 63, 1, 1⟩ ∧ Packs 64 63 ⟨64, 63, 1, 1⟩ ∧
      forSizes 64 64 = .error (.error (.tupleTooWide 64 64)) := by
  have wide := @forSizes_packs 64 64 (by decide) (by decide)
  obtain ⟨layout, laid, packs⟩ := (@forSizes_packs 64 63 (by decide) (by decide)).2 (by decide)
  have same : forSizes 64 63 = .ok ⟨64, 63, 1, 1⟩ := by decide
  obtain rfl := Except.ok.inj (laid.symm.trans same)
  exact ⟨same, packs, wide.1.mpr (by decide)⟩

end PagedTables.PageLayout
