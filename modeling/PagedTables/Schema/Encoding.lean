import PagedTables.Bytes
import PagedTables.Schema.BigEndian
import PagedTables.Schema.Conformance

/-! The fixed-width form of tuples. An integer takes four big-endian bytes; a string takes four bytes
for its length, then its bytes, then zeros up to its column's limit. -/

namespace PagedTables

/-- The bytes that a field's cell of `size` bytes begins with; zeros follow. The stored length of a
string counts modulo 2^32. -/
def Field.cell (size : Nat) : Field → Except Failure (List UInt8)
  | .int value =>
    if size = 4 then .ok (BigEndian.encode value.toUInt32) else .error (.fault .cellMismatch)
  | .str value =>
    let text := Text.Utf8.encode value
    if 4 + text.length ≤ size then .ok (BigEndian.encode (UInt32.ofNat text.length) ++ text)
    else .error (.fault .cellMismatch)

/-- The value in the cell that begins at `start`; bytes of a string's cell behind its length are not
looked at. -/
def FieldType.read (data : Bytes) (start : Nat) : FieldType → Except CellFault Field
  | .int => .ok (.int (BigEndian.decode (data.read start 4)).toInt32)
  | .str limit =>
    let length := (BigEndian.decode (data.read start 4)).toNat
    if length ≤ limit then
      match Text.Utf8.decode (data.read (start + 4) length) with
      | .ok value => .ok (.str value)
      | .error fault => .error (.notText fault)
    else .error (.tooLong length limit)

namespace Schema

def encodeFields : List FieldType → List Field → Nat → Bytes → Except Failure Bytes
  | type :: types, field :: fields, start, out => do
    let cell ← field.cell type.size
    let out := (out.clear start type.size).write start cell
    encodeFields types fields (start + type.size) out
  | _, _, _, out => .ok out

def encode (schema : Schema) (tuple : Tuple) (start : Nat) (out : Bytes) : Except Failure Bytes :=
  encodeFields schema.types tuple.fields start out

def decodeFields (data : Bytes) : List FieldType → Nat → Except CellFault (List Field)
  | [], _ => .ok []
  | type :: types, start => do
    let field ← type.read data start
    let fields ← decodeFields data types (start + type.size)
    return field :: fields

def decode (schema : Schema) (data : Bytes) (start : Nat) : Except CellFault Tuple :=
  (decodeFields data schema.types start).map Tuple.ofFields

end Schema
end PagedTables
