import PagedTables.Pool.Basic

/-! A scan of a table that can be stopped and started over. The number of pages is taken when the
scan is opened; pages that are added later are not visited. -/

namespace PagedTables

structure Cursor where
  file : HeapFile
  owner : TransactionId
  isOpen : Bool
  nextPage : UInt32
  numPages : UInt32
  pending : List Tuple
deriving DecidableEq

namespace Cursor

def closed (file : HeapFile) (owner : TransactionId) : Cursor :=
  { file, owner, isOpen := false, nextPage := 0, numPages := 0, pending := [] }

def start (cursor : Cursor) (disk : Disk) : Cursor :=
  { cursor with
    isOpen := true, nextPage := 0, numPages := cursor.file.numPages disk, pending := [] }

/-- Ends the scan; the locks it took stay with its transaction. -/
def close (cursor : Cursor) : Cursor := { cursor with isOpen := false, pending := [] }

def rewind (cursor : Cursor) (disk : Disk) : Cursor := cursor.close.start disk

/-- The page to visit next: none if the scan is closed or at its end, nor, unless the scan runs on
to its end, while there are tuples to hand out. -/
def wanted (cursor : Cursor) (toEnd : Bool) : Option PageId :=
  if cursor.isOpen && (toEnd || cursor.pending.isEmpty) && cursor.nextPage < cursor.numPages then
    some ⟨cursor.file.table, cursor.nextPage⟩
  else none

def visit (cursor : Cursor) (heap : HeapPage) : Cursor :=
  { cursor with
    nextPage := cursor.nextPage + 1, pending := cursor.pending ++ heap.tuples }

def hasPending (cursor : Cursor) : Bool := cursor.isOpen && !cursor.pending.isEmpty

def pop (cursor : Cursor) : Cursor × Option Tuple :=
  match cursor.isOpen, cursor.pending with
  | true, tuple :: rest => ({ cursor with pending := rest }, some tuple)
  | _, _ => (cursor, none)

end Cursor
end PagedTables
