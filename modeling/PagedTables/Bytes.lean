import Std.Data.ExtTreeMap

/-! Byte strings with long runs of zeros: a length, and the bytes that are not zero. -/

namespace PagedTables

structure Bytes where
  length : Nat
  nonzero : Std.ExtTreeMap Nat UInt8
deriving DecidableEq

namespace Bytes

def zeros (length : Nat) : Bytes := ⟨length, ∅⟩

def empty : Bytes := zeros 0

def byte (bytes : Bytes) (offset : Nat) : UInt8 := bytes.nonzero[offset]?.getD 0

def read (bytes : Bytes) (start length : Nat) : List UInt8 :=
  (List.range length).map fun i => bytes.byte (start + i)

def toList (bytes : Bytes) : List UInt8 := bytes.read 0 bytes.length

/-- Sets one byte; a zero is kept by leaving it out. -/
def putByte (nonzero : Std.ExtTreeMap Nat UInt8) (offset : Nat) (byte : UInt8) :
    Std.ExtTreeMap Nat UInt8 :=
  if byte = 0 then nonzero.erase offset else nonzero.insert offset byte

def put (nonzero : Std.ExtTreeMap Nat UInt8) (start : Nat) :
    List UInt8 → Std.ExtTreeMap Nat UInt8
  | [] => nonzero
  | byte :: bytes => put (putByte nonzero start byte) (start + 1) bytes

def write (bytes : Bytes) (start : Nat) (window : List UInt8) : Bytes :=
  if window = [] then bytes
  else
    { length := max bytes.length (start + window.length)
      nonzero := put bytes.nonzero start window }

def ofList (bytes : List UInt8) : Bytes := empty.write 0 bytes

def eraseWindow (nonzero : Std.ExtTreeMap Nat UInt8) (start : Nat) :
    Nat → Std.ExtTreeMap Nat UInt8
  | 0 => nonzero
  | length + 1 => eraseWindow (nonzero.erase start) (start + 1) length

/-- Leaves out the bytes of a window. It is gone through if that is shorter than to go through the
bytes that are there. -/
def outside (nonzero : Std.ExtTreeMap Nat UInt8) (start length : Nat) :
    Std.ExtTreeMap Nat UInt8 :=
  if length ≤ nonzero.size then eraseWindow nonzero start length
  else nonzero.filter fun offset _ => offset < start ∨ start + length ≤ offset

def clear (bytes : Bytes) (start length : Nat) : Bytes :=
  if length = 0 then bytes
  else
    { length := max bytes.length (start + length)
      nonzero := outside bytes.nonzero start length }

def resize (bytes : Bytes) (length : Nat) : Bytes :=
  { length, nonzero := bytes.nonzero.filter fun offset _ => offset < length }

theorem getElem?_putByte (nonzero : Std.ExtTreeMap Nat UInt8) (start offset : Nat)
    (byte : UInt8) :
    (putByte nonzero start byte)[offset]? =
      if start = offset then if byte = 0 then none else some byte else nonzero[offset]? := by
  unfold putByte
  split <;>
    simp [Std.ExtTreeMap.getElem?_erase, Std.ExtTreeMap.getElem?_insert]

theorem getElem?_put (nonzero : Std.ExtTreeMap Nat UInt8) (start offset : Nat)
    (bytes : List UInt8) :
    (put nonzero start bytes)[offset]? =
      if h : start ≤ offset ∧ offset - start < bytes.length then
        if bytes[offset - start] = 0 then none else some bytes[offset - start]
      else nonzero[offset]? := by
  induction bytes generalizing nonzero start with
  | nil => simp [put]
  | cons byte bytes ih =>
    rw [put, ih, getElem?_putByte]
    rcases Nat.lt_trichotomy offset start with lt | rfl | gt
    · rw [dif_neg (by omega), dif_neg (by omega), if_neg (by omega)]
    · rw [dif_neg (by omega), if_pos rfl, dif_pos ⟨Nat.le_refl _, by simp⟩]
      simp
    · have step : offset - start = offset - (start + 1) + 1 := by omega
      rw [if_neg (by omega)]
      simp only [Nat.succ_le_of_lt gt, Nat.le_of_lt gt, true_and, step, List.length_cons,
        Nat.add_lt_add_iff_right, List.getElem_cons_succ]

theorem byte_put (length start offset : Nat) (nonzero : Std.ExtTreeMap Nat UInt8)
    (bytes : List UInt8) :
    byte ⟨length, put nonzero start bytes⟩ offset =
      if h : start ≤ offset ∧ offset - start < bytes.length then bytes[offset - start]
      else nonzero[offset]?.getD 0 := by
  rw [byte, getElem?_put]
  split
  · split <;> simp_all
  · rfl

theorem getElem?_eraseWindow (nonzero : Std.ExtTreeMap Nat UInt8) (start length offset : Nat) :
    (eraseWindow nonzero start length)[offset]? =
      if start ≤ offset ∧ offset < start + length then none else nonzero[offset]? := by
  induction length generalizing nonzero start with
  | zero => rw [eraseWindow, if_neg (by omega)]
  | succ length ih =>
    rw [eraseWindow, ih, Std.ExtTreeMap.getElem?_erase]
    rcases Nat.lt_trichotomy offset start with lt | rfl | gt
    · have inner : ¬(start + 1 ≤ offset ∧ offset < start + 1 + length) := by omega
      have outer : ¬(start ≤ offset ∧ offset < start + (length + 1)) := by omega
      rw [if_neg inner, if_neg outer]
      simp [Nat.ne_of_gt lt]
    · have outer : offset ≤ offset ∧ offset < offset + (length + 1) := by omega
      rw [if_pos outer]
      simp
    · have inside : (start + 1 ≤ offset ∧ offset < start + 1 + length) =
          (start ≤ offset ∧ offset < start + (length + 1)) := propext (by omega)
      have apart : ¬compare start offset = .eq := by simp [Nat.ne_of_lt gt]
      rw [if_neg apart]
      simp only [inside]

theorem getElem?_outside (nonzero : Std.ExtTreeMap Nat UInt8) (start length offset : Nat) :
    (outside nonzero start length)[offset]? =
      if start ≤ offset ∧ offset < start + length then none else nonzero[offset]? := by
  unfold outside
  split
  · exact getElem?_eraseWindow nonzero start length offset
  · rw [Std.ExtTreeMap.getElem?_filter]
    have kept : offset < start ∨ start + length ≤ offset ↔
        ¬(start ≤ offset ∧ offset < start + length) := by omega
    by_cases inside : start ≤ offset ∧ offset < start + length
    · simp [kept, inside]
    · simp only [Std.ExtTreeMap.getKey_eq, kept, inside]
      cases nonzero[offset]? <;> rfl

theorem byte_clear (bytes : Bytes) (start length offset : Nat) :
    (bytes.clear start length).byte offset =
      if start ≤ offset ∧ offset < start + length then 0 else bytes.byte offset := by
  unfold clear
  split
  · rw [if_neg (by omega)]
  · rw [byte, getElem?_outside]
    split <;> rfl

theorem byte_write (bytes : Bytes) (start offset : Nat) (window : List UInt8) :
    (bytes.write start window).byte offset =
      if h : start ≤ offset ∧ offset - start < window.length then window[offset - start]
      else bytes.byte offset := by
  unfold write
  split
  · next none => rw [dif_neg (by simp [none])]
  · exact byte_put _ start offset bytes.nonzero window

end Bytes
end PagedTables
