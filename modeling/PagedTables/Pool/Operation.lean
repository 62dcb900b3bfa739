import PagedTables.Pool.Completion
import PagedTables.Pool.Task

/-! The operations of a pool: how each begins, and how one is run while nothing else happens. -/

namespace PagedTables

namespace Progress

def begin (start : Except Failure Progress) : Progress :=
  match start with
  | .ok progress => progress
  | .error failure => .failed failure

end Progress

namespace HeapFile

/-- Begins to put a tuple in the first free slot of a table. The number of pages is taken now. -/
def insertion (file : HeapFile) (disk : Disk) (owner : TransactionId) (tuple : Tuple)
    (remarked : Bool) : Except Failure Progress := do
  file.schema.validate tuple
  let job : Insertion := ⟨file, tuple, remarked⟩
  let stop := file.numPages disk
  return if 0 < stop then .ask owner ⟨file.table, 0⟩ (.place job stop)
    else .running (.extend owner job)

def deletion (file : HeapFile) (owner : TransactionId) (tuple : Tuple) (remarked : Bool) :
    Except Failure Progress :=
  match tuple.recordId with
  | none => .error (.error (.tupleNotFound (.unplaced tuple)))
  | some record =>
    if record.page.table = file.table then
      .ok (.ask owner record.page (.remove tuple remarked))
    else .error (.error (.tupleNotFound (.otherTable record file.table)))

end HeapFile

namespace Pool

def insertion (pool : Pool) (owner : TransactionId) (table : TableId) (tuple : Tuple) : Progress :=
  .begin do
    let file ← pool.file table
    file.insertion pool.disk owner tuple true

def deletion (pool : Pool) (owner : TransactionId) (tuple : Tuple) : Progress :=
  .begin do
    match tuple.recordId with
    | none => .error (.error (.tupleNotFound (.unplaced tuple)))
    | some record =>
      let file ← pool.file record.page.table
      file.deletion owner tuple true

def fileInsertion (pool : Pool) (owner : TransactionId) (table : TableId) (tuple : Tuple) :
    Progress :=
  .begin do
    let file ← pool.file table
    file.insertion pool.disk owner tuple false

def fileDeletion (pool : Pool) (owner : TransactionId) (table : TableId) (tuple : Tuple) :
    Progress :=
  .begin do
    let file ← pool.file table
    file.deletion owner tuple false

def scanning (pool : Pool) (owner : TransactionId) (table : TableId) : Progress :=
  .begin do
    let file ← pool.file table
    return ((Cursor.closed file owner).start pool.disk).advance true

def tryLock (pool : Pool) (owner : TransactionId) (page : PageId) (mode : LockMode) :
    Pool × Except Failure Bool :=
  match pool.locks.tryAcquire page owner mode with
  | (locks, .granted) | (locks, .joined) => ({ pool with locks }, .ok true)
  | (locks, .refused) => ({ pool with locks }, .ok false)
  | (locks, .deadlock) => ({ pool with locks }, .error (.error (.deadlock owner page)))

def pagesAhead (task : Task) : Nat :=
  match task with
  | .access ⟨_, page, .place _ stop, _⟩ => stop.toNat - page.number.toNat
  | .access ⟨_, _, .visit cursor _, _⟩ => cursor.numPages.toNat - cursor.nextPage.toNat
  | _ => 0

/-- The steps that suffice for a task. An access takes at most four. A page that was appended for a
tuple has room for it unless it was cached before, which is possible once for each cached page. -/
def stepsFor (pool : Pool) (task : Task) : Nat := 5 * (pagesAhead task + pool.cache.size + 4)

/-- Takes steps until the operation ends or has to wait. With patience it waits for its request to
fall due; without, it asks once more and gives up. -/
def runSteps (patient : Bool) : Nat → Pool → Progress → Pool × Progress
  | fuel + 1, pool, .running task =>
    if task.isWaiting then
      if patient then
        if task.isDue pool then
          let (pool, progress) := task.step pool
          runSteps patient fuel pool progress
        else (pool, .running task)
      else
        let (pool, progress) := task.expire pool
        runSteps patient fuel pool progress
    else
      let (pool, progress) := task.step pool
      runSteps patient fuel pool progress
  | _, pool, progress => (pool, progress)

def run (pool : Pool) (patient : Bool) (progress : Progress) : Pool × Progress :=
  match progress with
  | .running task => runSteps patient (pool.stepsFor task) pool progress
  | .finished _ => (pool, progress)

end Pool
end PagedTables
