import PagedTables.Pool.Operation

/-! What transactions ask of a pool, where they may have to wait for the answer, and the answers. -/

namespace PagedTables

inductive GuardUse
  | view
  | keep (name : String)
  | insert (tuple : Tuple) (marked : Bool)
deriving DecidableEq

inductive Request
  | lock (page : PageId) (mode : LockMode)
  | fetch (page : PageId) (mode : LockMode) (use : GuardUse)
  | insert (table : TableId) (tuple : Tuple)
  /-- Inserts `count` tuples that differ in the first field, which numbers them from zero on, up to
  the first that fails. -/
  | insertNumbered (table : TableId) (tuple : Tuple) (count : Nat)
  | delete (tuple : Tuple)
  | fileInsert (table : TableId) (tuple : Tuple)
  | fileDelete (table : TableId) (tuple : Tuple)
  | scan (table : TableId)
deriving DecidableEq

inductive Reply
  | failed (failure : Failure)
  | granted
  | page (heap : HeapPage) (writable : Bool)
  | inserted (page : PageId) (result : Except Failure RecordId)
  | modified (pages : List PageId)
  | insertedMany (count : Nat) (failure : Option StoreError)
  | scanned (tuples : List Tuple) (failure : Option StoreError)

inductive Plan
  | answer
  | useGuard (use : GuardUse)
  | insertMore (table : TableId) (tuple : Tuple) (number left : Nat)
deriving DecidableEq

structure Job where
  ticket : Nat
  task : Task
  plan : Plan
deriving DecidableEq

inductive Standing
  | answered (reply : Reply)
  | waiting (task : Task) (plan : Plan)

namespace Reply

def ofBatch (count : Nat) : Failure → Reply
  | .error error => .insertedMany count (some error)
  | .fault fault => .failed (.fault fault)

def ofScan (tuples : List Tuple) : Option Failure → Reply
  | none => .scanned tuples none
  | some (.error error) => .scanned tuples (some error)
  | some (.fault fault) => .failed (.fault fault)

end Reply
end PagedTables
