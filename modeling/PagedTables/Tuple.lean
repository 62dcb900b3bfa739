import PagedTables.Identifier
import PagedTables.Text.Quoted

/-! Field values and tuples. A tuple carries the place it is stored at once it has one. -/

namespace PagedTables

inductive Field
  | int (value : Int32)
  | str (value : String)
deriving DecidableEq

structure Tuple where
  fields : List Field
  recordId : Option RecordId
deriving DecidableEq

namespace Field

def asInt : Field → Option Int32
  | int value => some value
  | str _ => none

def asStr : Field → Option String
  | int _ => none
  | str value => some value

def text : Field → String
  | int value => toString value.toInt
  | str value => value

def described : Field → String
  | int value => s!"Int({value.toInt})"
  | str value => s!"Str({Text.quoted value})"

end Field

namespace Tuple

def ofFields (fields : List Field) : Tuple := ⟨fields, none⟩

def setField (tuple : Tuple) (i : Nat) (value : Field) : Tuple :=
  { tuple with fields := tuple.fields.set i value }

def numbered (tuple : Tuple) (number : Nat) : Tuple :=
  tuple.setField 0 (.int (Int32.ofNat number))

def setRecordId (tuple : Tuple) (recordId : Option RecordId) : Tuple :=
  { tuple with recordId := recordId }

def text (tuple : Tuple) : String := "\t".intercalate (tuple.fields.map Field.text)

end Tuple
end PagedTables
