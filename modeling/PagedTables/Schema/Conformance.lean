import PagedTables.Arithmetic

/-! Checked schemas, the width of a stored tuple, and the test whether a tuple has a schema's
shape. -/

namespace PagedTables

def FieldType.width : FieldType → Except Failure Nat
  | .int => .ok 4
  | .str limit => addSized 4 limit

namespace Schema

def ofTypes (types : List FieldType) : Except Failure Schema :=
  if nonempty : types ≠ [] then .ok ⟨types, nonempty⟩ else .error (.fault .noFields)

def widthFrom (sum : Nat) : List FieldType → Except Failure Nat
  | [] => .ok sum
  | type :: types => do
    let width ← type.width
    let sum ← addSized sum width
    widthFrom sum types

def width (schema : Schema) : Except Failure Nat := widthFrom 0 schema.types

def misfit? (index : Nat) : List Field → List FieldType → Option Mismatch
  | field :: fields, type :: types =>
    if type.admits field then misfit? (index + 1) fields types
    else some (.misfit index field type)
  | _, _ => none

def mismatch? (schema : Schema) (tuple : Tuple) : Option Mismatch :=
  if tuple.fields.length = schema.types.length then misfit? 0 tuple.fields schema.types
  else some (.fieldCount schema.types.length tuple.fields.length)

def validate (schema : Schema) (tuple : Tuple) : Except Failure Unit :=
  match schema.mismatch? tuple with
  | none => .ok ()
  | some cause => .error (.error (.schemaMismatch cause))

end Schema
end PagedTables
