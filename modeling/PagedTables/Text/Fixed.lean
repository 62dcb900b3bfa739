/-! Numbers with one decimal place. -/

namespace PagedTables.Text

/-- The whole number next to a quotient; of two at the same distance, the even one. -/
def roundHalfEven (numerator denominator : Nat) : Nat :=
  let quotient := numerator / denominator
  let rest := 2 * (numerator % denominator)
  if rest < denominator then quotient
  else if denominator < rest then quotient + 1
  else quotient + quotient % 2

def binaryFraction (bits : UInt64) : Nat × Nat :=
  let exponent := ((bits >>> 52) &&& 0x7ff).toNat
  let fraction := (bits &&& 0xfffffffffffff).toNat
  let significand := if exponent = 0 then fraction else fraction + 1 <<< 52
  let shift := max exponent 1
  if 1075 ≤ shift then (significand <<< (shift - 1075), 1)
  else (significand, 1 <<< (1075 - shift))

def oneDecimal (value : Float) : String :=
  let (numerator, denominator) := binaryFraction value.toBits
  let tenths := roundHalfEven (10 * numerator) denominator
  s!"{tenths / 10}.{tenths % 10}"

end PagedTables.Text
