import PagedTables.Bytes

/-! Windows of byte strings: when two strings agree there, and which bytes a write leaves alone. -/

namespace PagedTables.Bytes

def Agree (a b : Bytes) (start length : Nat) : Prop :=
  ∀ offset, start ≤ offset → offset < start + length → a.byte offset = b.byte offset

def AgreeOutside (a b : Bytes) (start length : Nat) : Prop :=
  ∀ offset, offset < start ∨ start + length ≤ offset → a.byte offset = b.byte offset

variable {a b c : Bytes} {start length : Nat}

theorem Agree.trans (h : Agree a b start length) (h' : Agree b c start length) :
    Agree a c start length :=
  fun offset low high => (h offset low high).trans (h' offset low high)

theorem Agree.sub (h : Agree a b start length) {inner size : Nat} (low : start ≤ inner)
    (high : inner + size ≤ start + length) : Agree a b inner size :=
  fun offset first last => h offset (by omega) (by omega)

theorem AgreeOutside.refl (a : Bytes) (start length : Nat) : AgreeOutside a a start length :=
  fun _ _ => rfl

theorem AgreeOutside.trans (h : AgreeOutside a b start length)
    (h' : AgreeOutside b c start length) : AgreeOutside a c start length :=
  fun offset out => (h offset out).trans (h' offset out)

theorem AgreeOutside.mono (h : AgreeOutside a b start length) {outer size : Nat}
    (low : outer ≤ start) (high : start + length ≤ outer + size) : AgreeOutside a b outer size :=
  fun offset out => h offset (by omega)

theorem AgreeOutside.agree (h : AgreeOutside a b start length) {other size : Nat}
    (apart : other + size ≤ start ∨ start + length ≤ other) : Agree a b other size :=
  fun offset low high => h offset (by omega)

theorem getElem_read {bytes : Bytes} {i : Nat} (inside : i < (bytes.read start length).length) :
    (bytes.read start length)[i] = bytes.byte (start + i) := by
  simp [read]

@[simp]
theorem length_read (bytes : Bytes) (start length : Nat) :
    (bytes.read start length).length = length := by
  simp [read]

theorem read_congr (h : Agree a b start length) : a.read start length = b.read start length := by
  refine List.ext_getElem (by simp) fun i low high => ?_
  rw [getElem_read, getElem_read]
  rw [length_read] at low
  exact h (start + i) (by omega) (by omega)

theorem read_add (bytes : Bytes) (start m n : Nat) :
    bytes.read start (m + n) = bytes.read start m ++ bytes.read (start + m) n := by
  simp [read, List.range_add, Nat.add_assoc, Function.comp_def]

theorem read_eq_of_byte {bytes : Bytes} {list : List UInt8}
    (h : ∀ i (inside : i < list.length), bytes.byte (start + i) = list[i]) :
    bytes.read start list.length = list := by
  refine List.ext_getElem (by simp) fun i low high => ?_
  rw [getElem_read, h i high]

theorem read_write_self (bytes : Bytes) (start : Nat) (window : List UInt8) :
    (bytes.write start window).read start window.length = window := by
  refine read_eq_of_byte fun i inside => ?_
  rw [byte_write, dif_pos ⟨Nat.le_add_right start i, by omega⟩]
  simp

theorem write_agreeOutside (bytes : Bytes) (start : Nat) (window : List UInt8) :
    AgreeOutside (bytes.write start window) bytes start window.length := by
  intro offset out
  rw [byte_write, dif_neg (by omega)]

theorem clear_agreeOutside (bytes : Bytes) (start length : Nat) :
    AgreeOutside (bytes.clear start length) bytes start length := by
  intro offset out
  rw [byte_clear, if_neg (by omega)]

theorem read_write_clear {bytes : Bytes} {window : List UInt8} (fits : window.length ≤ length) :
    ((bytes.clear start length).write start window).read start length =
      window ++ List.replicate (length - window.length) 0 := by
  have whole := read_add ((bytes.clear start length).write start window) start window.length
    (length - window.length)
  rw [Nat.add_sub_cancel' fits, read_write_self] at whole
  rw [whole]
  congr 1
  refine List.eq_replicate_iff.mpr ⟨length_read _ _ _, fun byte member => ?_⟩
  obtain ⟨i, inside, rfl⟩ := List.mem_iff_getElem.mp member
  rw [length_read] at inside
  rw [getElem_read, byte_write, dif_neg (by omega), byte_clear, if_pos (by omega)]

theorem length_write (bytes : Bytes) (start : Nat) (window : List UInt8) :
    (bytes.write start window).length =
      if window = [] then bytes.length else max bytes.length (start + window.length) := by
  unfold write
  split <;> rfl

theorem length_clear (bytes : Bytes) (start length : Nat) :
    (bytes.clear start length).length =
      if length = 0 then bytes.length else max bytes.length (start + length) := by
  unfold clear
  split <;> rfl

theorem length_write_of_le {bytes : Bytes} {window : List UInt8}
    (inside : start + window.length ≤ bytes.length) :
    (bytes.write start window).length = bytes.length := by
  rw [length_write]
  split <;> omega

theorem length_clear_of_le {bytes : Bytes} (inside : start + length ≤ bytes.length) :
    (bytes.clear start length).length = bytes.length := by
  rw [length_clear]
  split <;> omega

end PagedTables.Bytes
