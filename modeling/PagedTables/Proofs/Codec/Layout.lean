import Mathlib.Tactic.Ring
import PagedTables.Page.Layout
import PagedTables.Schema.Conformance

/-! Where the slots of a page lie: behind the bitmap, one after another, and inside the page. -/

namespace PagedTables

namespace PageLayout

/-- A bitmap with room for every slot, and behind it the slots; both are inside the page. -/
structure Laid (layout : PageLayout) : Prop where
  width_pos : 0 < layout.tupleWidth
  slots_pos : 0 < layout.numSlots
  header_room : layout.numSlots ≤ 8 * layout.headerLength
  within : layout.headerLength + layout.numSlots * layout.tupleWidth ≤ layout.pageSize

structure Valid (layout : PageLayout) : Prop where
  width_pos : 0 < layout.tupleWidth
  slots_pos : 0 < layout.numSlots
  header_room : layout.numSlots ≤ 8 * layout.headerLength
  within : layout.headerLength + layout.numSlots * layout.tupleWidth ≤ layout.pageSize
  small : layout.pageSize < 2 ^ 32

variable {layout : PageLayout} {pageSize tupleWidth : Nat}

theorem laid_of_forSizes (h : forSizes pageSize tupleWidth = .ok layout) :
    layout.Laid ∧ layout.pageSize = pageSize ∧ layout.tupleWidth = tupleWidth := by
  unfold forSizes slotsFor at h
  by_cases zero : tupleWidth = 0
  · simp [zero, bind, Except.bind] at h
  rw [if_neg zero] at h
  cases bits : mulSized pageSize 8 with
  | error fault => simp [bits, bind, Except.bind] at h
  | ok bitCount =>
  cases width : mulSized tupleWidth 8 with
  | error fault => simp [bits, width, bind, Except.bind] at h
  | ok widthBits =>
  cases cost : addSized widthBits 1 with
  | error fault => simp [bits, width, cost, bind, Except.bind] at h
  | ok slotBits =>
  obtain ⟨_, rfl⟩ := mulSized_eq_ok.mp bits
  obtain ⟨_, rfl⟩ := mulSized_eq_ok.mp width
  obtain ⟨_, rfl⟩ := addSized_eq_ok.mp cost
  simp only [bits, width, cost, bind, Except.bind, pure, Except.pure] at h
  split at h
  · cases h
  · next some =>
    simp only [Except.ok.injEq] at h
    subst h
    -- A slot takes the bits of its tuple and one bit of the bitmap.
    have fits : pageSize * 8 / (tupleWidth * 8 + 1) * (tupleWidth * 8 + 1) ≤ pageSize * 8 :=
      Nat.div_mul_le_self _ _
    generalize pageSize * 8 / (tupleWidth * 8 + 1) = count at some fits ⊢
    have cost : count * (tupleWidth * 8 + 1) = 8 * (count * tupleWidth) + count := by ring
    rw [cost] at fits
    refine ⟨⟨Nat.pos_of_ne_zero zero, Nat.pos_of_ne_zero some, ?_, ?_⟩, rfl, rfl⟩
    · show count ≤ 8 * ((count + 7) / 8)
      omega
    · show (count + 7) / 8 + count * tupleWidth ≤ pageSize
      omega

theorem valid_of_forSizes (small : pageSize < 2 ^ 32)
    (h : forSizes pageSize tupleWidth = .ok layout) :
    layout.Valid ∧ layout.pageSize = pageSize ∧ layout.tupleWidth = tupleWidth := by
  obtain ⟨laid, rfl, rfl⟩ := laid_of_forSizes h
  exact ⟨⟨laid.width_pos, laid.slots_pos, laid.header_room, laid.within, small⟩, rfl, rfl⟩

theorem Valid.laid (valid : layout.Valid) : layout.Laid :=
  ⟨valid.width_pos, valid.slots_pos, valid.header_room, valid.within⟩

theorem Laid.slot_within (laid : layout.Laid) {slot : Nat} (inside : slot < layout.numSlots) :
    layout.headerLength + slot * layout.tupleWidth + layout.tupleWidth ≤ layout.pageSize := by
  have next : (slot + 1) * layout.tupleWidth ≤ layout.numSlots * layout.tupleWidth :=
    Nat.mul_le_mul_right _ inside
  have within := laid.within
  rw [Nat.add_mul, Nat.one_mul] at next
  omega

theorem Laid.pageSize_pos (laid : layout.Laid) : 0 < layout.pageSize := by
  have within := laid.slot_within laid.slots_pos
  have width_pos := laid.width_pos
  omega

theorem Laid.slotStart_eq (laid : layout.Laid) (addressable : layout.pageSize < wordBound)
    {slot : Nat} (inside : slot < layout.numSlots) :
    layout.slotStart slot = .ok (layout.headerLength + slot * layout.tupleWidth) := by
  have within := laid.slot_within inside
  have skipped : slot * layout.tupleWidth < wordBound := by omega
  have sum : layout.headerLength + slot * layout.tupleWidth < wordBound := by omega
  rw [slotStart, mulSized_of_lt skipped]
  exact addSized_of_lt sum

theorem Laid.slotRange_eq (laid : layout.Laid) (addressable : layout.pageSize < wordBound)
    {slot : Nat} (inside : slot < layout.numSlots) :
    layout.slotRange slot = .ok (layout.headerLength + slot * layout.tupleWidth,
      layout.headerLength + slot * layout.tupleWidth + layout.tupleWidth) := by
  have stop := (laid.slot_within inside).trans_lt addressable
  rw [slotRange, laid.slotStart_eq addressable inside]
  simp only [bind, Except.bind, addSized_of_lt stop]
  rfl

theorem Valid.addressable (valid : layout.Valid) : layout.pageSize < wordBound :=
  valid.small.trans (by decide)

theorem Valid.slot_within (valid : layout.Valid) {slot : Nat} (inside : slot < layout.numSlots) :
    layout.headerLength + slot * layout.tupleWidth + layout.tupleWidth ≤ layout.pageSize :=
  valid.laid.slot_within inside

theorem Valid.slotStart_eq (valid : layout.Valid) {slot : Nat} (inside : slot < layout.numSlots) :
    layout.slotStart slot = .ok (layout.headerLength + slot * layout.tupleWidth) :=
  valid.laid.slotStart_eq valid.addressable inside

theorem Valid.slotRange_eq (valid : layout.Valid) {slot : Nat} (inside : slot < layout.numSlots) :
    layout.slotRange slot = .ok (layout.headerLength + slot * layout.tupleWidth,
      layout.headerLength + slot * layout.tupleWidth + layout.tupleWidth) :=
  valid.laid.slotRange_eq valid.addressable inside

theorem Valid.pageSize_pos (valid : layout.Valid) : 0 < layout.pageSize := valid.laid.pageSize_pos

end PageLayout

namespace Schema

theorem widthFrom_eq {types : List FieldType} {sum width : Nat}
    (h : widthFrom sum types = .ok width) : width = sum + sizes types := by
  induction types generalizing sum with
  | nil =>
    simp only [widthFrom, Except.ok.injEq] at h
    simp [h, sizes]
  | cons type types ih =>
    rw [widthFrom] at h
    cases one : type.width with
    | error fault => simp [one, bind, Except.bind] at h
    | ok size =>
    cases total : addSized sum size with
    | error fault => simp [one, total, bind, Except.bind] at h
    | ok next =>
    simp only [one, total, bind, Except.bind] at h
    obtain ⟨_, rfl⟩ := addSized_eq_ok.mp total
    have sized : size = type.size := by
      cases type with
      | int => exact (Except.ok.inj one).symm
      | str limit => exact (addSized_eq_ok.mp one).2
    rw [ih h, sized, sizes, Nat.add_assoc]

theorem cell_within {types : List FieldType} {column : Nat} {type : FieldType}
    (found : types[column]? = some type) : sizes (types.take column) + type.size ≤ sizes types := by
  induction types generalizing column with
  | nil => simp at found
  | cons first types ih =>
    cases column with
    | zero =>
      obtain rfl : first = type := by simpa using found
      simp [sizes]
    | succ column =>
      have later : types[column]? = some type := by simpa using found
      have rest := ih later
      rw [List.take_succ_cons, sizes, sizes]
      omega

theorem width_eq {schema : Schema} {width : Nat} (h : schema.width = .ok width) :
    width = schema.size := by
  rw [widthFrom_eq h, Nat.zero_add, size]

end Schema
end PagedTables
