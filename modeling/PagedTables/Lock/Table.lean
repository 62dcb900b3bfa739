import PagedTables.Lock.Mode
import PagedTables.Lock.WaitGraph

/-! Which transaction has locked which page, and one attempt to lock a page. -/

namespace PagedTables

abbrev PageSet := Std.ExtTreeSet PageId

/-- The lock on one page. There is at least one holder, and only one in exclusive mode. -/
structure Lock where
  mode : LockMode
  holders : TransactionSet
deriving DecidableEq

namespace Lock

def first (mode : LockMode) (owner : TransactionId) : Lock := ⟨mode, {owner}⟩

def isSoleHolder (lock : Lock) (owner : TransactionId) : Bool :=
  lock.holders.size = 1 && lock.holders.contains owner

end Lock

/-- How a request for a page's lock is answered: with the lock as it is from then on, or not. A
shared lock is joined when it had other holders before. -/
inductive Verdict
  | granted (lock : Lock)
  | joined (lock : Lock)
  | refused
deriving DecidableEq

/-- Asks for a lock that nobody may hold yet. A sole holder that asks for more is raised in place; an
exclusive holder has all it can ask for. -/
def Lock.request (lock? : Option Lock) (owner : TransactionId) (mode : LockMode) : Verdict :=
  match lock? with
  | none => .granted (.first mode owner)
  | some lock =>
    if lock.mode ≠ mode then
      if lock.isSoleHolder owner then .granted { lock with mode := .exclusive } else .refused
    else
      match mode with
      | .shared =>
        if lock.holders.contains owner then .granted lock
        else .joined { lock with holders := lock.holders.insert owner }
      | .exclusive => if lock.isSoleHolder owner then .granted lock else .refused

/-- The locks by page and, the same once more, the locked pages by transaction. -/
structure LockTable where
  locks : Std.ExtTreeMap PageId Lock
  held : Std.ExtTreeMap TransactionId PageSet
  waits : WaitGraph
deriving DecidableEq

/-- What comes of one attempt. When a lock was joined, whoever waits for the page now waits for one
transaction more. -/
inductive Decision
  | granted
  | joined
  | refused
  | deadlock
deriving DecidableEq

namespace LockTable

def empty : LockTable := ⟨∅, ∅, .empty⟩

def heldBy (table : LockTable) (owner : TransactionId) : PageSet := table.held[owner]?.getD ∅

def holdersOf (table : LockTable) (page : PageId) : TransactionSet :=
  match table.locks[page]? with
  | some lock => lock.holders
  | none => ∅

def holds (table : LockTable) (owner : TransactionId) (page : PageId) : Bool :=
  (table.holdersOf page).contains owner

def mode? (table : LockTable) (page : PageId) : Option LockMode :=
  table.locks[page]?.map Lock.mode

def lockedCount (table : LockTable) : Nat := table.locks.size

def grant (table : LockTable) (page : PageId) (owner : TransactionId) (lock : Lock) : LockTable :=
  { locks := table.locks.insert page lock
    held := table.held.insert owner ((table.heldBy owner).insert page)
    waits := table.waits.clearWaiting owner }

def refuse (table : LockTable) (page : PageId) (owner : TransactionId) : LockTable × Decision :=
  let waits := table.waits.setWaiting owner (table.holdersOf page).toList
  if waits.isOnCycle owner then
    ({ table with waits := waits.clearWaiting owner }, .deadlock)
  else ({ table with waits }, .refused)

def attempt (table : LockTable) (page : PageId) (owner : TransactionId) (mode : LockMode) :
    LockTable × Decision :=
  match Lock.request table.locks[page]? owner mode with
  | .granted lock => (table.grant page owner lock, .granted)
  | .joined lock => (table.grant page owner lock, .joined)
  | .refused => table.refuse page owner

def dropHolder (locks : Std.ExtTreeMap PageId Lock) (page : PageId) (owner : TransactionId) :
    Std.ExtTreeMap PageId Lock :=
  match locks[page]? with
  | none => locks
  | some lock =>
    let left := lock.holders.erase owner
    if left.isEmpty then locks.erase page else locks.insert page { lock with holders := left }

def release (table : LockTable) (page : PageId) (owner : TransactionId) : LockTable :=
  { locks := dropHolder table.locks page owner
    held :=
      match table.held[owner]? with
      | none => table.held
      | some pages =>
        let left := pages.erase page
        if left.isEmpty then table.held.erase owner else table.held.insert owner left
    waits := table.waits.clearWaiting owner }

def releaseAll (table : LockTable) (owner : TransactionId) : LockTable :=
  { locks := (table.heldBy owner).toList.foldl (dropHolder · · owner) table.locks
    held := table.held.erase owner
    waits := table.waits.remove owner }

def clearWaiting (table : LockTable) (owner : TransactionId) : LockTable :=
  { table with waits := table.waits.clearWaiting owner }

end LockTable
end PagedTables
