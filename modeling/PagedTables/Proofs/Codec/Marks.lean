import Mathlib.Data.Finset.Dedup
import Mathlib.Data.Finset.Insert
import PagedTables.Proofs.Codec.Page

/-! A bitmap as the set of the slots that are marked in it. Setting a bit changes nothing else, so it
does not matter in which order slots are marked. -/

namespace PagedTables.Bitmap

structure Sets (header : Array UInt8) (slot : Nat) (used : Bool) (later : Array UInt8) : Prop where
  size : later.size = header.size
  here : get later slot = .ok used
  others : ∀ other < 8 * header.size, other ≠ slot →
    ∃ bit, get header other = .ok bit ∧ get later other = .ok bit
  bytes : ∀ place, place ≠ slot / 8 → later[place]? = header[place]?

/-- The bits that are set are those of a set of slots. -/
structure Shows (size : Nat) (chosen : Finset Nat) (header : Array UInt8) : Prop where
  length : header.size = size
  bits : ∀ slot < 8 * size, get header slot = .ok (decide (slot ∈ chosen))

def markAll (header : Array UInt8) (slots : List Nat) : Except Failure (Array UInt8) :=
  slots.foldlM (fun header slot => set header slot true) header

/-- The one bitmap of a set of slots, in whatever order they are marked: also the one that is written
for a page with these slots in use. -/
structure Marks (size : Nat) (chosen : Finset Nat) (header : Array UInt8) : Prop
    extends Shows size chosen header where
  orders : ∀ slots : List Nat, slots.toFinset = chosen →
    markAll (Array.replicate size 0) slots = .ok header
  pages : ∀ entries : List (Option Tuple), entries.length ≤ 8 * size →
    (∀ slot, slot ∈ chosen ↔ entries[slot]?.join.isSome) →
      HeapPage.markUsed 0 entries (Array.replicate size 0) = .ok header

variable {header later : Array UInt8} {size slot : Nat} {chosen : Finset Nat}

theorem sets_set (inside : slot < 8 * header.size) (used : Bool) :
    ∃ later, set header slot used = .ok later ∧ Sets header slot used later := by
  have byte : slot / 8 < header.size := by omega
  obtain ⟨later, set, size, bits⟩ := exists_set byte used
  refine ⟨later, set, size, ?_, fun other bound apart => ?_, fun place apart => ?_⟩
  · rw [bits slot byte, if_pos rfl]
  · have inside : other / 8 < header.size := by omega
    rw [bits other inside, if_neg apart, get_eq inside]
    exact ⟨_, rfl, rfl⟩
  · obtain rfl := Except.ok.inj ((set_eq byte used).symm.trans set)
    exact Array.getElem?_setIfInBounds_ne (Ne.symm apart)

theorem ext_get (size : header.size = later.size)
    (bits : ∀ slot < 8 * header.size, get header slot = get later slot) : header = later := by
  refine Array.ext size fun place inside inside' => ?_
  rw [← UInt8.toBitVec_inj]
  refine BitVec.eq_of_getLsbD_eq fun bit small => ?_
  have byte : (8 * place + bit) / 8 = place := by omega
  have rest : (8 * place + bit) % 8 = bit := by omega
  have same := bits (8 * place + bit) (by omega)
  rw [get_eq (by omega), get_eq (by omega)] at same
  simpa only [byte, rest, Except.ok.injEq] using same

theorem Shows.unique (shown : Shows size chosen header) (shown' : Shows size chosen later) :
    header = later := by
  refine ext_get (shown.length.trans shown'.length.symm) fun slot inside => ?_
  rw [shown.length] at inside
  rw [shown.bits slot inside, shown'.bits slot inside]

theorem exists_markAll (slots : List Nat) (header : Array UInt8)
    (inside : ∀ slot ∈ slots, slot < 8 * header.size) :
    ∃ later, markAll header slots = .ok later ∧ later.size = header.size ∧
      ∀ other < 8 * header.size,
        get later other = if other ∈ slots then .ok true else get header other := by
  induction slots generalizing header with
  | nil => exact ⟨header, rfl, rfl, fun other _ => by simp⟩
  | cons slot slots ih =>
    have here := inside slot List.mem_cons_self
    obtain ⟨first, set, same, changed⟩ := exists_set (by omega : slot / 8 < header.size) true
    obtain ⟨later, marked, size, bits⟩ := ih first fun other member =>
      same ▸ inside other (List.mem_cons_of_mem slot member)
    refine ⟨later, ?_, size.trans same, fun other bound => ?_⟩
    · rw [markAll, List.foldlM_cons, set]
      exact marked
    · rw [bits other (same ▸ bound), changed other (by omega)]
      by_cases now : other = slot
      · simp [now]
      · simp [now]

theorem get_clear (inside : slot < 8 * size) : get (Array.replicate size 0) slot = .ok false :=
  get_replicate (by omega)

theorem shows_markAll {slots : List Nat} (inside : ∀ slot ∈ slots, slot < 8 * size) :
    ∃ header, markAll (Array.replicate size 0) slots = .ok header ∧
      Shows size slots.toFinset header := by
  have zeros : (Array.replicate size (0 : UInt8)).size = size := Array.size_replicate
  obtain ⟨header, marked, length, bits⟩ := exists_markAll slots _ (zeros.symm ▸ inside)
  rw [zeros] at length bits
  refine ⟨header, marked, length, fun slot bound => ?_⟩
  rw [bits slot bound, get_clear bound]
  by_cases member : slot ∈ slots <;> simp [member]

theorem shows_markUsed {entries : List (Option Tuple)} (room : entries.length ≤ 8 * size)
    (used : ∀ slot, slot ∈ chosen ↔ entries[slot]?.join.isSome) :
    ∃ header, HeapPage.markUsed 0 entries (Array.replicate size 0) = .ok header ∧
      Shows size chosen header := by
  have zeros : (Array.replicate size (0 : UInt8)).size = size := Array.size_replicate
  obtain ⟨header, marked, length, bits⟩ :=
    HeapPage.exists_markUsed entries 0 (Array.replicate size 0) (by omega)
  rw [zeros] at length bits
  refine ⟨header, marked, length, fun slot bound => ?_⟩
  rw [bits slot (by omega), get_clear bound, Nat.sub_zero]
  simp only [used, Nat.zero_le, true_and]
  cases entries[slot]?.join <;> rfl

theorem exists_marks (inside : ∀ slot ∈ chosen, slot < 8 * size) :
    ∃ header, Marks size chosen header := by
  obtain ⟨header, -, shown⟩ := shows_markAll fun slot member =>
    inside slot (Finset.mem_toList.mp member)
  rw [Finset.toList_toFinset] at shown
  refine ⟨header, shown, fun slots same => ?_, fun entries room used => ?_⟩
  · obtain ⟨later, marked, shown'⟩ := shows_markAll fun slot (member : slot ∈ slots) =>
      inside slot (same ▸ List.mem_toFinset.mpr member)
    rw [marked, shown.unique (same ▸ shown')]
  · obtain ⟨later, marked, shown'⟩ := shows_markUsed room used
    rw [marked, shown.unique shown']

/-- A bit keeps its value whatever is done to the others, so a set of slots has one bitmap. -/
theorem bits_independent :
    (∀ (header : Array UInt8) (slot : Nat) (used : Bool), slot < 8 * header.size →
      ∃ later, set header slot used = .ok later ∧ Sets header slot used later) ∧
    ∀ (size : Nat) (chosen : Finset Nat), (∀ slot ∈ chosen, slot < 8 * size) →
      ∃ header, Marks size chosen header :=
  ⟨fun _ _ used inside => sets_set inside used, fun _ _ inside => exists_marks inside⟩

/-- The tenth bit is the second one of the second byte. -/
theorem bits_independent_tenth :
    (set #[1, 255] 9 false = .ok #[1, 253] ∧ Sets #[1, 255] 9 false #[1, 253]) ∧
      Marks 2 {0, 9} #[1, 2] := by
  obtain ⟨later, set, sets⟩ := bits_independent.1 #[1, 255] 9 false (by decide)
  obtain ⟨header, marks⟩ := bits_independent.2 2 {0, 9} (by decide)
  have cleared : Bitmap.set #[1, 255] 9 false = .ok #[1, 253] := by decide
  have marked : markAll (Array.replicate 2 0) [0, 9] = .ok #[1, 2] := by decide
  obtain rfl := Except.ok.inj (cleared.symm.trans set)
  obtain rfl := Except.ok.inj (marked.symm.trans (marks.orders [0, 9] (by decide)))
  exact ⟨⟨cleared, sets⟩, marks⟩

end PagedTables.Bitmap
