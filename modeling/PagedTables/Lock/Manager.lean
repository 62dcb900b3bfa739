import PagedTables.Lock.Table

/-! Lock requests that wait. A refused request sleeps; whenever locks are given back or joined, every
sleeping request falls due for one more attempt. -/

namespace PagedTables

structure LockRequest where
  page : PageId
  owner : TransactionId
  mode : LockMode
deriving DecidableEq

/-- The lock table and the requests that were refused and are still wanted. One transaction may have
several of them. -/
structure LockManager where
  table : LockTable
  /-- Refused since locks were last given back or joined. -/
  sleeping : List LockRequest
  due : List LockRequest
deriving DecidableEq

inductive LockAnswer
  | granted
  | waiting
  | deadlock
  | timedOut
deriving DecidableEq

namespace LockManager

def empty : LockManager := ⟨.empty, [], []⟩

def wake (manager : LockManager) : LockManager :=
  { manager with sleeping := [], due := manager.due ++ manager.sleeping }

/-- Takes back a request; the edges of its owner stay. -/
def withdraw (manager : LockManager) (request : LockRequest) : LockManager :=
  { manager with
      sleeping := manager.sleeping.filter (· ≠ request)
      due := manager.due.filter (· ≠ request) }

def isDue (manager : LockManager) (request : LockRequest) : Bool := manager.due.contains request

def acquire (manager : LockManager) (page : PageId) (owner : TransactionId) (mode : LockMode) :
    LockManager × LockAnswer :=
  let manager := manager.withdraw ⟨page, owner, mode⟩
  match manager.table.attempt page owner mode with
  | (table, .granted) => ({ manager with table }, .granted)
  | (table, .joined) => (wake { manager with table }, .granted)
  | (table, .refused) =>
    ({ manager with table, sleeping := manager.sleeping ++ [⟨page, owner, mode⟩] }, .waiting)
  | (table, .deadlock) => ({ manager with table }, .deadlock)

/-- Asks for the last time, and stops waiting if the request is refused. -/
def expire (manager : LockManager) (page : PageId) (owner : TransactionId) (mode : LockMode) :
    LockManager × LockAnswer :=
  let manager := manager.withdraw ⟨page, owner, mode⟩
  match manager.table.attempt page owner mode with
  | (table, .granted) => ({ manager with table }, .granted)
  | (table, .joined) => (wake { manager with table }, .granted)
  | (table, .refused) => ({ manager with table := table.clearWaiting owner }, .timedOut)
  | (table, .deadlock) => ({ manager with table }, .deadlock)

/-- Asks once and does not wait; the edges of a refused request stay. -/
def tryAcquire (manager : LockManager) (page : PageId) (owner : TransactionId)
    (mode : LockMode) : LockManager × Decision :=
  match manager.table.attempt page owner mode with
  | (table, .joined) => (wake { manager with table }, .joined)
  | (table, decision) => ({ manager with table }, decision)

def release (manager : LockManager) (page : PageId) (owner : TransactionId) : LockManager :=
  wake { manager with table := manager.table.release page owner }

def releaseAll (manager : LockManager) (owner : TransactionId) : LockManager :=
  wake { manager with table := manager.table.releaseAll owner }

end LockManager
end PagedTables
