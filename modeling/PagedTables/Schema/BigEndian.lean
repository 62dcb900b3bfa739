/-! Thirty-two-bit words as four bytes, the most significant first. -/

namespace PagedTables.BigEndian

def encode (word : UInt32) : List UInt8 :=
  [UInt8.ofNat (word.toNat >>> 24), UInt8.ofNat (word.toNat >>> 16),
    UInt8.ofNat (word.toNat >>> 8), UInt8.ofNat word.toNat]

/-- Reads the first four bytes; missing bytes count as zero. -/
def decode (bytes : List UInt8) : UInt32 :=
  UInt32.ofNat ((bytes.getD 0 0).toNat <<< 24 + (bytes.getD 1 0).toNat <<< 16
    + (bytes.getD 2 0).toNat <<< 8 + (bytes.getD 3 0).toNat)

@[simp]
theorem length_encode (word : UInt32) : (encode word).length = 4 := rfl

theorem decode_encode_append (word : UInt32) (rest : List UInt8) :
    decode (encode word ++ rest) = word := by
  have small := word.toNat_lt
  apply UInt32.toNat.inj
  simp only [decode, encode, List.cons_append, List.getD_cons_zero, List.getD_cons_succ,
    UInt8.toNat_ofNat', UInt32.toNat_ofNat']
  omega

theorem encode_decode (a b c d : UInt8) (rest : List UInt8) :
    encode (decode (a :: b :: c :: d :: rest)) = [a, b, c, d] := by
  have ha := a.toNat_lt
  have hb := b.toNat_lt
  have hc := c.toNat_lt
  have hd := d.toNat_lt
  simp only [decode, encode, List.getD_cons_zero, List.getD_cons_succ, UInt32.toNat_ofNat',
    List.cons.injEq, and_true]
  refine ⟨?_, ?_, ?_, ?_⟩ <;> apply UInt8.toNat.inj <;> rw [UInt8.toNat_ofNat'] <;> omega

end PagedTables.BigEndian
