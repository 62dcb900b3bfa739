import PagedTables.Arithmetic

/-! Occupancy bits. The bit of slot `i` is bit `i % 8` of byte `i / 8`, the least significant bit
first. -/

namespace PagedTables.Bitmap

def mask (slot : Nat) : UInt8 := 1 <<< UInt8.ofNat (slot % 8)

def outOfBounds (header : Array UInt8) (slot : Nat) : Failure :=
  .fault (.indexOutOfBounds header.size (slot / 8))

def get (header : Array UInt8) (slot : Nat) : Except Failure Bool :=
  match header[slot / 8]? with
  | some byte => .ok (byte &&& mask slot != 0)
  | none => .error (outOfBounds header slot)

def set (header : Array UInt8) (slot : Nat) (used : Bool) : Except Failure (Array UInt8) :=
  match header[slot / 8]? with
  | some byte =>
    .ok (header.setIfInBounds (slot / 8)
      (if used then byte ||| mask slot else byte &&& ~~~mask slot))
  | none => .error (outOfBounds header slot)

end PagedTables.Bitmap
