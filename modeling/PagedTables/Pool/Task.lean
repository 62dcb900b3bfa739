import PagedTables.Pool.Cursor
import PagedTables.Pool.Guard

/-! What a transaction is in the middle of. An operation is a sequence of page accesses, each made of
steps that nothing can come between: to ask for the lock, to pin the page, to latch and use it. Other
transactions may take steps in between. -/

namespace PagedTables

/-- A tuple on its way into a table. When `remarked`, its page is fetched once more in the end and
marked again. -/
structure Insertion where
  file : HeapFile
  tuple : Tuple
  remarked : Bool
deriving DecidableEq

inductive Purpose
  | lock (mode : LockMode)
  | guard (mode : LockMode)
  /-- For a free slot; the search goes on up to the page numbered `stop`. -/
  | place (job : Insertion) (stop : UInt32)
  /-- For a free slot; the page was appended for it. -/
  | claim (job : Insertion)
  | remove (tuple : Tuple) (remarked : Bool)
  | mark
  | visit (cursor : Cursor) (toEnd : Bool)
deriving DecidableEq

def Purpose.mode : Purpose → LockMode
  | lock mode | guard mode => mode
  | visit _ _ => .shared
  | place _ _ | claim _ | remove _ _ | mark => .exclusive

inductive Phase
  | ask
  | wait
  | pin
  | use (stay : Nat)
deriving DecidableEq

structure Access where
  owner : TransactionId
  page : PageId
  purpose : Purpose
  phase : Phase
deriving DecidableEq

inductive Task
  | access (access : Access)
  | extend (owner : TransactionId) (job : Insertion)
deriving DecidableEq

inductive Finish
  | failed (failure : Failure)
  | locked
  | guarded (guard : Guard)
  | modified (pages : List PageId)
  | scanned (cursor : Cursor) (failure : Option Failure)
deriving DecidableEq

inductive Progress
  | running (task : Task)
  | finished (finish : Finish)
deriving DecidableEq

def Progress.failed (failure : Failure) : Progress := .finished (.failed failure)

def Progress.ask (owner : TransactionId) (page : PageId) (purpose : Purpose) : Progress :=
  .running (.access ⟨owner, page, purpose, .ask⟩)

def Purpose.failed (failure : Failure) : Purpose → Finish
  | visit cursor _ => .scanned cursor (some failure)
  | _ => .failed failure

def Progress.changed (owner : TransactionId) (page : PageId) (remarked : Bool) : Progress :=
  if remarked then .ask owner page .mark else .finished (.modified [page])

def Cursor.advance (cursor : Cursor) (toEnd : Bool) : Progress :=
  match cursor.wanted toEnd with
  | some page => .ask cursor.owner page (.visit cursor toEnd)
  | none => .finished (.scanned cursor none)

/-- Puts the tuple in a free slot of a page, or goes on as `full` says if there is none. -/
def Insertion.tryPage (job : Insertion) (owner : TransactionId) (heap : HeapPage)
    (full : Progress) : HeapPage × Progress :=
  if heap.freeCount = 0 then (heap, full)
  else
    match heap.insert job.tuple with
    | .error failure => (heap, .failed failure)
    | .ok (heap, _) => (heap.markDirty (some owner), .changed owner heap.id job.remarked)

def Purpose.act (owner : TransactionId) (heap : HeapPage) : Purpose → HeapPage × Progress
  | lock _ => (heap, .finished .locked)
  | guard _ => (heap, .finished .locked)
  | place job stop =>
    let next := heap.id.number + 1
    job.tryPage owner heap
      (if next < stop then .ask owner { heap.id with number := next } (.place job stop)
        else .running (.extend owner job))
  | claim job => job.tryPage owner heap (.running (.extend owner job))
  | remove tuple remarked =>
    match heap.delete tuple with
    | .error failure => (heap, .failed failure)
    | .ok heap => (heap.markDirty (some owner), .changed owner heap.id remarked)
  | mark => (heap.markDirty (some owner), .finished (.modified [heap.id]))
  | visit cursor toEnd => (heap, (cursor.visit heap).advance toEnd)

namespace Access

/-- Goes on as the lock manager says. A deadlock is counted if the page was wanted for more than its
lock. -/
def answered (access : Access) (pool : Pool) (answer : LockAnswer) : Pool × Progress :=
  match answer, access.purpose with
  | .granted, .lock _ => (pool, .finished .locked)
  | .granted, _ => (pool, .running (.access { access with phase := .pin }))
  | .waiting, _ => (pool, .running (.access { access with phase := .wait }))
  | .deadlock, .lock _ => (pool, .failed (.error (.deadlock access.owner access.page)))
  | .deadlock, purpose =>
    (pool.count .deadlocks,
      .finished (purpose.failed (.error (.deadlock access.owner access.page))))
  | .timedOut, purpose =>
    (pool, .finished (purpose.failed (.error (.lockTimeout access.owner access.page))))

def isDue (access : Access) (pool : Pool) : Bool :=
  pool.locks.isDue ⟨access.page, access.owner, access.purpose.mode⟩

def request (access : Access) (pool : Pool) : Pool × Progress :=
  let (locks, answer) := pool.locks.acquire access.page access.owner access.purpose.mode
  access.answered { pool with locks } answer

def expire (access : Access) (pool : Pool) : Pool × Progress :=
  let (locks, answer) := pool.locks.expire access.page access.owner access.purpose.mode
  access.answered { pool with locks } answer

def pin (access : Access) (pool : Pool) : Pool × Progress :=
  match pool.pin access.page with
  | (pool, .error failure) => (pool, .finished (access.purpose.failed failure))
  | (pool, .ok stay) => (pool, .running (.access { access with phase := .use stay }))

/-- Latches the page, uses it and lets go of it; with a guard, the caller does the latter two.
Nothing happens while another user's latch is in the way. -/
def use (access : Access) (pool : Pool) (stay : Nat) : Pool × Progress :=
  let guard : Guard := ⟨access.page, stay, access.purpose.mode = .exclusive⟩
  match pool.latch guard with
  | none => (pool, .running (.access access))
  | some pool =>
    match access.purpose, pool.view guard with
    | _, none => (pool, .running (.access access))
    | .guard _, some _ => (pool, .finished (.guarded guard))
    | purpose, some heap =>
      let (heap, progress) := purpose.act access.owner heap
      match (pool.change guard heap).drop guard with
      | (pool, .ok ()) => (pool, progress)
      | (pool, .error failure) => (pool, .failed failure)

def step (access : Access) (pool : Pool) : Pool × Progress :=
  match access.phase with
  | .ask => access.request pool
  | .wait =>
    if access.isDue pool then access.request pool
    else (pool, .running (.access access))
  | .pin => access.pin pool
  | .use stay => access.use pool stay

end Access

namespace Task

def owner : Task → TransactionId
  | access current => current.owner
  | extend owner _ => owner

def isWaiting : Task → Bool
  | access current => current.phase = .wait
  | extend _ _ => false

def isDue (pool : Pool) : Task → Bool
  | access current => current.isDue pool
  | extend _ _ => false

def step (task : Task) (pool : Pool) : Pool × Progress :=
  match task with
  | access current => current.step pool
  | extend owner job =>
    match pool.appendPage job.file with
    | (pool, .error failure) => (pool, .failed failure)
    | (pool, .ok page) => (pool, .ask owner page (.claim job))

def expire (task : Task) (pool : Pool) : Pool × Progress :=
  match task with
  | access current => current.expire pool
  | extend _ _ => (pool, .running task)

end Task
end PagedTables
