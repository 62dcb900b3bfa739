/-! UTF-8: bytes to text, and where and how a byte string stops being well formed. -/

namespace PagedTables.Text.Utf8

/-- What is wrong with a byte string: a sequence that cannot be completed to a character after
`length` of its bytes, or one that the input cuts off. Both name the first byte of the sequence,
which is also the number of well-formed bytes before it. -/
inductive Fault
  | invalid (length start : Nat)
  | incomplete (start : Nat)
deriving DecidableEq

def Fault.text : Fault → String
  | .invalid length start => s!"invalid utf-8 sequence of {length} bytes from index {start}"
  | .incomplete start => s!"incomplete utf-8 byte sequence from index {start}"

/-- The ranges that the bytes after a leading byte must lie in, nothing for a byte that starts no
character. Overlong forms, surrogates and values above U+10FFFF are excluded by the second byte. -/
def following (lead : UInt8) : Option (List (UInt8 × UInt8)) :=
  if lead ≤ 0x7f then some []
  else if 0xc2 ≤ lead ∧ lead ≤ 0xdf then some [(0x80, 0xbf)]
  else if lead = 0xe0 then some [(0xa0, 0xbf), (0x80, 0xbf)]
  else if lead = 0xed then some [(0x80, 0x9f), (0x80, 0xbf)]
  else if 0xe1 ≤ lead ∧ lead ≤ 0xef then some [(0x80, 0xbf), (0x80, 0xbf)]
  else if lead = 0xf0 then some [(0x90, 0xbf), (0x80, 0xbf), (0x80, 0xbf)]
  else if 0xf1 ≤ lead ∧ lead ≤ 0xf3 then some [(0x80, 0xbf), (0x80, 0xbf), (0x80, 0xbf)]
  else if lead = 0xf4 then some [(0x80, 0x8f), (0x80, 0xbf), (0x80, 0xbf)]
  else none

/-- The first fault of `bytes`, read at position `index` inside a sequence that began at `start`
and still owes bytes in the ranges `owed`. -/
def faultFrom (start index : Nat) : List (UInt8 × UInt8) → List UInt8 → Option Fault
  | [], [] => none
  | _ :: _, [] => some (.incomplete start)
  | [], byte :: bytes =>
    match following byte with
    | some owed => faultFrom index (index + 1) owed bytes
    | none => some (.invalid 1 index)
  | range :: owed, byte :: bytes =>
    if range.1 ≤ byte ∧ byte ≤ range.2 then faultFrom start (index + 1) owed bytes
    else some (.invalid (index - start) start)

def fault? (bytes : List UInt8) : Option Fault := faultFrom 0 0 [] bytes

def encode (text : String) : List UInt8 := text.toByteArray.data.toList

def decode (bytes : List UInt8) : Except Fault String :=
  if valid : (ByteArray.mk bytes.toArray).IsValidUTF8 then
    .ok (String.ofByteArray (ByteArray.mk bytes.toArray) valid)
  else
    .error ((fault? bytes).getD (.incomplete 0))

@[simp]
theorem length_encode (text : String) : (encode text).length = text.utf8ByteSize := rfl

theorem decode_encode (text : String) : decode (encode text) = .ok text := by
  have valid : (ByteArray.mk (encode text).toArray).IsValidUTF8 := text.isValidUTF8
  rw [decode, dif_pos valid]
  rfl

theorem encode_of_decode {bytes : List UInt8} {text : String} (h : decode bytes = .ok text) :
    encode text = bytes := by
  unfold decode at h
  split at h
  · cases h
    rfl
  · cases h

end PagedTables.Text.Utf8
