import PagedTables.Tuple

/-! Column types and schemas, and which values they admit. -/

namespace PagedTables

inductive FieldType
  | int
  | str (limit : Nat)
deriving DecidableEq

namespace FieldType

def described : FieldType → String
  | int => "Int"
  | str limit => s!"Str({limit})"

/-- Bytes that a value takes when it is stored; a string is preceded by its length. -/
def size : FieldType → Nat
  | int => 4
  | str limit => 4 + limit

def admits : FieldType → Field → Bool
  | int, .int _ => true
  | str limit, .str value => value.utf8ByteSize ≤ limit
  | _, _ => false

theorem four_le_size (type : FieldType) : 4 ≤ type.size := by
  cases type with
  | int => exact Nat.le_refl 4
  | str limit => exact Nat.le_add_right 4 limit

end FieldType

structure Schema where
  types : List FieldType
  types_ne_nil : types ≠ []
deriving DecidableEq

namespace Schema

def sizes : List FieldType → Nat
  | [] => 0
  | type :: types => type.size + sizes types

def size (schema : Schema) : Nat := sizes schema.types

end Schema
end PagedTables
