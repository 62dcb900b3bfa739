import PagedTables.Failure

/-! Sums and products of sizes and offsets, which must fit in 64 bits. -/

namespace PagedTables

def wordBound : Nat := 1 <<< 64

def addSized (a b : Nat) : Except Failure Nat :=
  if a + b < wordBound then .ok (a + b) else .error (.fault .addOverflow)

def mulSized (a b : Nat) : Except Failure Nat :=
  if a * b < wordBound then .ok (a * b) else .error (.fault .mulOverflow)

theorem addSized_of_lt {a b : Nat} (h : a + b < wordBound) : addSized a b = .ok (a + b) :=
  if_pos h

theorem mulSized_of_lt {a b : Nat} (h : a * b < wordBound) : mulSized a b = .ok (a * b) :=
  if_pos h

theorem addSized_eq_ok {a b c : Nat} : addSized a b = .ok c ↔ a + b < wordBound ∧ c = a + b := by
  unfold addSized
  split
  · next fits => simp [fits, eq_comm]
  · next beyond => simp [beyond]

theorem mulSized_eq_ok {a b c : Nat} : mulSized a b = .ok c ↔ a * b < wordBound ∧ c = a * b := by
  unfold mulSized
  split
  · next fits => simp [fits, eq_comm]
  · next beyond => simp [beyond]

end PagedTables
