import PagedTables.Disk.Error
import PagedTables.Schema.Basic
import PagedTables.Text.Utf8

/-! The ways an operation can fail. An error is a cause that the caller may act on; a fault is a
broken precondition, which ends the operation at the point where it is noticed. -/

namespace PagedTables

inductive Mismatch
  | fieldCount (expected got : Nat)
  | misfit (index : Nat) (field : Field) (type : FieldType)
  | stated (reason : String)
deriving DecidableEq

inductive Absence
  | unplaced (tuple : Tuple)
  | otherPage (record : RecordId) (page : PageId)
  | otherTable (record : RecordId) (table : TableId)
  | freeSlot (record : RecordId)
  | stated (reason : String)
deriving DecidableEq

inductive CellFault
  | tooLong (length limit : Nat)
  | notText (fault : Text.Utf8.Fault)
deriving DecidableEq

inductive Corruption
  | wrongLength (expected got : Nat)
  | badSlot (slot : Nat) (fault : CellFault)
  | stated (reason : String)
deriving DecidableEq

inductive StoreError
  | disk (cause : DiskError)
  | pageNotFound (page : PageId)
  | tableNotFound (table : TableId)
  | deadlock (owner : TransactionId) (page : PageId)
  | lockTimeout (owner : TransactionId) (page : PageId)
  | capacityExhausted (capacity : Nat)
  | pageFull (page : PageId)
  | tupleNotFound (cause : Absence)
  | schemaMismatch (cause : Mismatch)
  | tupleTooWide (width pageSize : Nat)
  | corruptPage (page : PageId) (cause : Corruption)
deriving DecidableEq

inductive Fault
  | addOverflow
  | mulOverflow
  | indexOutOfBounds (length index : Nat)
  | noFields
  | noPoolPages
  | tooManySlots
  | tooManyPoolPages
  | pinUnderflow
  /-- A user's latch is in the way: the call waits, and has done nothing yet. -/
  | latched
  | cellMismatch
deriving DecidableEq

inductive Failure
  | error (cause : StoreError)
  | fault (cause : Fault)
deriving DecidableEq

def Mismatch.text : Mismatch → String
  | fieldCount expected got => s!"expected {expected} fields, got {got}"
  | misfit index field type =>
    s!"field {index} ({field.described}) does not fit {type.described}"
  | stated reason => reason

def Absence.text : Absence → String
  | unplaced tuple => s!"tuple ({tuple.text}) has no record id"
  | otherPage record page => s!"{record.text} is not on {page.text}"
  | otherTable record table => s!"{record.text} is not in {table.text}"
  | freeSlot record => s!"slot {record.text} is free"
  | stated reason => reason

def CellFault.text : CellFault → String
  | tooLong length limit => s!"string length {length} exceeds {limit}"
  | notText fault => s!"invalid utf-8 in string field: {fault.text}"

def Corruption.text : Corruption → String
  | wrongLength expected got => s!"expected {expected} bytes, got {got}"
  | badSlot slot fault => s!"slot {slot}: {fault.text}"
  | stated reason => reason

namespace StoreError

def message : StoreError → String
  | disk cause => s!"I/O error: {cause.text}"
  | pageNotFound page => s!"{page.text} not found"
  | tableNotFound table => s!"{table.text} not found"
  | deadlock owner page => s!"deadlock detected: {owner.text} waiting for lock on {page.text}"
  | lockTimeout owner page => s!"lock wait timed out: {owner.text} waiting for lock on {page.text}"
  | capacityExhausted capacity =>
    s!"buffer pool exhausted: all {capacity} pages are dirty or pinned"
  | pageFull page => s!"{page.text} has no free slot"
  | tupleNotFound cause => s!"tuple not found: {cause.text}"
  | schemaMismatch cause => s!"schema mismatch: {cause.text}"
  | tupleTooWide width pageSize => s!"tuple width {width} does not fit in a {pageSize}-byte page"
  | corruptPage page cause => s!"corrupt {page.text}: {cause.text}"

/-- Whether the transaction that met the error has to be given up. -/
def isAbort : StoreError → Bool
  | deadlock _ _ | lockTimeout _ _ => true
  | _ => false

end StoreError

def Fault.message : Fault → String
  | addOverflow => "attempt to add with overflow"
  | mulOverflow => "attempt to multiply with overflow"
  | indexOutOfBounds length index =>
    s!"index out of bounds: the len is {length} but the index is {index}"
  | noFields => "a tuple needs at least one field"
  | noPoolPages => "pool_pages must be > 0"
  | tooManySlots => "capacity overflow"
  | tooManyPoolPages => "Hash table capacity overflow"
  | pinUnderflow => "pin count underflow"
  | latched => "latched"
  | cellMismatch => "a field does not fit its cell"

end PagedTables
