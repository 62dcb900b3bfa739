import Mathlib.Logic.Function.Basic
import PagedTables.Pool.Operation
import PagedTables.Proofs.Storage.Edit
import PagedTables.Proofs.Pool.Numbering

/-! Transactions at work on one pool. Each is in at most one operation at a time; their steps come in
any order, and so do the steps in which they end. What they see and bring about is written down. -/

namespace PagedTables

inductive Call
  | fetch (page : PageId) (mode : LockMode)
  | scan (table : TableId)
  | resume (cursor : Cursor)
  | insert (table : TableId) (tuple : Tuple)
  | delete (tuple : Tuple)
deriving DecidableEq

namespace Call

def begin (call : Call) (pool : Pool) (owner : TransactionId) : Progress :=
  match call with
  | fetch page mode => .ask owner page (.guard mode)
  | scan table => pool.scanning owner table
  | resume cursor => ({ cursor with owner } : Cursor).advance false
  | insert table tuple => pool.insertion owner table tuple
  | delete tuple => pool.deletion owner tuple

inductive Begins (pool : Pool) (owner : TransactionId) : Call → Progress → Prop
  | failed (call : Call) (failure : Failure) : Begins pool owner call (.failed failure)
  | fetches (page : PageId) (mode : LockMode) :
      Begins pool owner (.fetch page mode) (.ask owner page (.guard mode))
  | scans (table : TableId) (file : HeapFile) (registered : pool.tables[table]? = some file) :
      Begins pool owner (.scan table) (((Cursor.closed file owner).start pool.disk).advance true)
  | resumes (cursor : Cursor) :
      Begins pool owner (.resume cursor) (({ cursor with owner } : Cursor).advance false)
  | places (table : TableId) (tuple : Tuple) (file : HeapFile)
      (registered : pool.tables[table]? = some file) (some : 0 < file.numPages pool.disk) :
      Begins pool owner (.insert table tuple)
        (.ask owner ⟨file.table, 0⟩ (.place ⟨file, tuple, true⟩ (file.numPages pool.disk)))
  | appends (table : TableId) (tuple : Tuple) (file : HeapFile)
      (registered : pool.tables[table]? = some file) (none : ¬0 < file.numPages pool.disk) :
      Begins pool owner (.insert table tuple) (.running (.extend owner ⟨file, tuple, true⟩))
  | removes (tuple : Tuple) (record : RecordId) (placed : tuple.recordId = some record) :
      Begins pool owner (.delete tuple) (.ask owner record.page (.remove tuple true))

theorem begins_begin (call : Call) (pool : Pool) (owner : TransactionId) :
    Begins pool owner call (call.begin pool owner) := by
  cases call with
  | fetch page mode => exact .fetches page mode
  | resume cursor => exact .resumes cursor
  | scan table =>
    simp only [begin, Pool.scanning, Pool.file]
    cases registered : pool.tables[table]? with
    | none => exact .failed _ _
    | some file => exact .scans table file registered
  | insert table tuple =>
    simp only [begin, Pool.insertion, Pool.file]
    cases registered : pool.tables[table]? with
    | none => exact .failed _ _
    | some file =>
      simp only [HeapFile.insertion, bind, Except.bind]
      cases file.schema.validate tuple with
      | error failure => exact .failed _ failure
      | ok valid =>
        simp only
        split
        · next some => exact .places table tuple file registered some
        · next none => exact .appends table tuple file registered none
  | delete tuple =>
    simp only [begin, Pool.deletion]
    cases placed : tuple.recordId with
    | none => exact .failed _ _
    | some record =>
      simp only [Pool.file]
      cases pool.tables[record.page.table]? with
      | none => exact .failed _ _
      | some file =>
        simp only [HeapFile.deletion, placed, bind, Except.bind]
        split
        · exact .removes tuple record placed
        · exact .failed _ _

def edit? : Call → Option Edit
  | insert _ tuple => some (.insert tuple)
  | delete tuple => tuple.recordId.map fun record => .delete record.slot
  | _ => none

end Call

inductive Event
  | seen (owner : TransactionId) (page : PageId) (slots : Slots)
  | changed (owner : TransactionId) (page : PageId) (edit : Edit)
  /-- A transaction ended. Whoever takes its name afterwards is a new one. -/
  | ended (owner : TransactionId) (committed : Bool)
deriving DecidableEq

namespace Event

/-- The edits of a page that a transaction has made since it began. The latest event comes first. -/
def openEdits (owner : TransactionId) (page : PageId) : List Event → List Edit
  | [] => []
  | seen _ _ _ :: earlier => openEdits owner page earlier
  | changed other place edit :: earlier =>
    if other = owner ∧ place = page then openEdits owner page earlier ++ [edit]
    else openEdits owner page earlier
  | ended other _ :: earlier => if other = owner then [] else openEdits owner page earlier

def committedEdits (page : PageId) : List Event → List Edit
  | [] => []
  | ended owner true :: earlier => committedEdits page earlier ++ openEdits owner page earlier
  | ended _ false :: earlier => committedEdits page earlier
  | seen _ _ _ :: earlier => committedEdits page earlier
  | changed _ _ _ :: earlier => committedEdits page earlier

end Event

inductive Stage
  | idle
  | working (call : Call) (task : Task)
  /-- It commits or aborts; some of its pages are still to be written or dropped. -/
  | ending (commit : Bool) (rest : List PageId)
deriving DecidableEq

namespace Stage

def isWorking : Stage → Bool
  | working _ _ => true
  | _ => false

def isWaiting : Stage → Bool
  | working _ task => task.isWaiting
  | _ => false

def isEnding : Stage → Bool
  | ending _ _ => true
  | _ => false

theorem isWorking_of_isWaiting {stage : Stage} (waiting : stage.isWaiting = true) :
    stage.isWorking = true := by
  cases stage with
  | working call task => rfl
  | idle => cases waiting
  | ending commit rest => cases waiting

end Stage

def Progress.stage (call : Call) : Progress → Stage
  | running task => .working call task
  | finished _ => .idle

/-- The page that a step shows to the transaction that takes it. A page that is only marked once more
is not looked at. -/
def Task.sight (pool : Pool) : Task → Option (PageId × Slots)
  | access ⟨_, _, .mark, _⟩ => none
  | access ⟨_, page, purpose, .use stay⟩ => do
    let guard : Guard := ⟨page, stay, purpose.mode = .exclusive⟩
    let heap ← (← pool.latch guard).view guard
    return (page, heap.slots)
  | _ => none

structure Workload where
  pool : Pool
  stage : TransactionId → Stage
  guards : TransactionId → List Guard
  /-- The latest event comes first. -/
  history : List Event
  /-- How many tables were asked for, whether or not there was a file for them. -/
  registrations : Nat

inductive Action
  | create (name : String) (schema : Schema)
  | attach (name : String) (schema : Schema)
  | call (owner : TransactionId) (call : Call)
  | advance (owner : TransactionId)
  | expire (owner : TransactionId)
  | drop (owner : TransactionId) (guard : Guard)
  | finish (owner : TransactionId) (commit : Bool)
  /-- Its next page is written or dropped; after the last one, its locks are given back. -/
  | settle (owner : TransactionId)
deriving DecidableEq

namespace Pool

/-- A file that was laid out is not that of a table already. -/
def Unregistered (pool : Pool) : Except Failure HeapFile → Prop
  | .ok file => ∀ entry ∈ pool.tables.toList, entry.2.path ≠ file.path
  | .error _ => True

theorem Sound.registers_unregistered {pool : Pool} {start : Disk} (sound : pool.Sound start)
    {name : String} {schema : Schema} (free : pool.HasTableId)
    (fresh : pool.Unregistered (HeapFile.attach pool.disk name ⟨pool.nextTable⟩ schema
      pool.config.pageSize)) :
    Registers pool (pool.openTable name schema).1 :=
  sound.registers_open free name schema fun file made => by
    rw [made] at fresh
    exact fresh

def Bounded (pool : Pool) : Prop :=
  ∀ entry ∈ pool.tables.toList, entry.2.length pool.disk / entry.2.pageSize < 2 ^ 32 - 1

theorem Bounded.few {pool : Pool} (bounded : pool.Bounded) {table : TableId} {file : HeapFile}
    (registered : pool.tables[table]? = some file) :
    file.length pool.disk / file.pageSize < 2 ^ 32 - 1 :=
  bounded (table, file) (Std.ExtTreeMap.mem_toList_iff_getElem?_eq_some.mpr registered)

def settlePage (pool : Pool) (commit : Bool) (page : PageId) : Pool × Except Failure Unit :=
  if commit then pool.flushPage page else (pool.discardPage page, .ok ())

instance (pool : Pool) : (made : Except Failure HeapFile) → Decidable (pool.Unregistered made)
  | .ok file => inferInstanceAs (Decidable (∀ entry ∈ pool.tables.toList, entry.2.path ≠ file.path))
  | .error _ => inferInstanceAs (Decidable True)

instance (pool : Pool) : Decidable pool.Bounded :=
  inferInstanceAs (Decidable (∀ entry ∈ pool.tables.toList, _ < _))

end Pool

namespace Workload

def start (pool : Pool) : Workload :=
  { pool, stage := fun _ => .idle, guards := fun _ => [], history := [],
    registrations := 0 }

def follow (work : Workload) (owner : TransactionId) (call : Call) : Progress → Workload
  | .running task =>
    { work with stage := Function.update work.stage owner (.working call task) }
  | .finished finish =>
    let work := { work with stage := Function.update work.stage owner .idle }
    match finish with
    | .guarded guard =>
      { work with guards := Function.update work.guards owner (guard :: work.guards owner) }
    | .modified pages =>
      let changes := pages.filterMap fun page => call.edit?.map fun edit => .changed owner page edit
      { work with history := changes ++ work.history }
    | _ => work

def look (work : Workload) (owner : TransactionId) (task : Task) : Workload :=
  match task.sight work.pool with
  | some (page, slots) => { work with history := .seen owner page slots :: work.history }
  | none => work

@[simp]
theorem follow_pool (work : Workload) (owner : TransactionId) (call : Call) (progress : Progress) :
    (work.follow owner call progress).pool = work.pool := by
  cases progress with
  | running task => rfl
  | finished finish => cases finish <;> rfl

theorem follow_stage (work : Workload) (owner : TransactionId) (call : Call)
    (progress : Progress) :
    (work.follow owner call progress).stage =
      Function.update work.stage owner (progress.stage call) := by
  cases progress with
  | running task => rfl
  | finished finish => cases finish <;> rfl

theorem follow_guards (work : Workload) (owner : TransactionId) (call : Call)
    (progress : Progress) :
    (work.follow owner call progress).guards = Function.update work.guards owner
      (match progress with
        | .finished (.guarded guard) => guard :: work.guards owner
        | _ => work.guards owner) := by
  cases progress with
  | running task => exact (Function.update_eq_self owner work.guards).symm
  | finished finish =>
    cases finish with
    | guarded guard => rfl
    | failed failure => exact (Function.update_eq_self owner work.guards).symm
    | locked => exact (Function.update_eq_self owner work.guards).symm
    | modified pages => exact (Function.update_eq_self owner work.guards).symm
    | scanned cursor failure => exact (Function.update_eq_self owner work.guards).symm

@[simp]
theorem follow_registrations (work : Workload) (owner : TransactionId) (call : Call)
    (progress : Progress) :
    (work.follow owner call progress).registrations = work.registrations := by
  cases progress with
  | running task => rfl
  | finished finish => cases finish <;> rfl

@[simp]
theorem look_registrations (work : Workload) (owner : TransactionId) (task : Task) :
    (work.look owner task).registrations = work.registrations := by
  unfold look
  split <;> rfl

theorem look_cases (work : Workload) (owner : TransactionId) (task : Task) :
    work.look owner task = work ∨ ∃ page slots, task.sight work.pool = some (page, slots) ∧
      work.look owner task = { work with history := .seen owner page slots :: work.history } := by
  unfold look
  cases task.sight work.pool with
  | none => exact .inl rfl
  | some shown => exact .inr ⟨shown.1, shown.2, rfl, rfl⟩

def canSettle (work : Workload) (owner : TransactionId) : Bool :=
  match work.stage owner with
  | .ending commit (page :: _) => (work.pool.settlePage commit page).2.isOk
  | stage => stage.isEnding

/-- Which actions may be taken. A file is opened for one table only; a transaction ends when it is in no
operation and has let go of its pages; no file is too long for its pages to be numbered, and writes to
files succeed. -/
def Enabled (work : Workload) : Action → Prop
  | .create _ _ => True
  | .attach name schema => work.pool.Unregistered (HeapFile.attach work.pool.disk name
      ⟨work.pool.nextTable⟩ schema work.pool.config.pageSize)
  | .call owner _ => work.stage owner = .idle
  | .advance owner => (work.stage owner).isWorking ∧ work.pool.Bounded
  | .expire owner => (work.stage owner).isWaiting
  | .drop owner guard => work.stage owner = .idle ∧ guard ∈ work.guards owner
  | .finish owner _ => work.stage owner = .idle ∧ work.guards owner = []
  | .settle owner => work.canSettle owner

def after (work : Workload) : Action → Workload
  | .create name schema =>
    { work with
      pool := (work.pool.createTable name schema).1
      registrations := work.registrations + 1 }
  | .attach name schema =>
    { work with
      pool := (work.pool.openTable name schema).1
      registrations := work.registrations + 1 }
  | .call owner call => work.follow owner call (call.begin work.pool owner)
  | .advance owner =>
    match work.stage owner with
    | .working call task =>
      let (pool, progress) := task.step work.pool
      { work.look owner task with pool }.follow owner call progress
    | _ => work
  | .expire owner =>
    match work.stage owner with
    | .working call task =>
      let (pool, progress) := task.expire work.pool
      { work with pool }.follow owner call progress
    | _ => work
  | .drop owner guard =>
    { work with
      pool := (work.pool.drop guard).1
      guards := Function.update work.guards owner ((work.guards owner).erase guard) }
  | .finish owner commit =>
    let rest := work.pool.heldPages owner
    { work with stage := Function.update work.stage owner (.ending commit rest) }
  | .settle owner =>
    match work.stage owner with
    | .ending commit (page :: rest) =>
      { work with
        pool := (work.pool.settlePage commit page).1
        stage := Function.update work.stage owner (.ending commit rest) }
    | .ending commit [] =>
      { work with
        pool := work.pool.releaseAll owner
        stage := Function.update work.stage owner .idle
        history := .ended owner commit :: work.history }
    | _ => work

inductive Run (allowed : Action → Prop) (first : Workload) : Workload → Prop
  | start : Run allowed first first
  | step {work : Workload} (action : Action) (run : Run allowed first work) (kind : allowed action)
      (enabled : work.Enabled action) : Run allowed first (work.after action)

instance (work : Workload) : (action : Action) → Decidable (work.Enabled action)
  | .create _ _ => inferInstanceAs (Decidable True)
  | .attach _ _ => inferInstanceAs (Decidable (work.pool.Unregistered _))
  | .call owner _ => inferInstanceAs (Decidable (work.stage owner = .idle))
  | .advance owner =>
    inferInstanceAs (Decidable ((work.stage owner).isWorking = true ∧ work.pool.Bounded))
  | .expire owner => inferInstanceAs (Decidable ((work.stage owner).isWaiting = true))
  | .drop owner guard =>
    inferInstanceAs (Decidable (work.stage owner = .idle ∧ guard ∈ work.guards owner))
  | .finish owner _ =>
    inferInstanceAs (Decidable (work.stage owner = .idle ∧ work.guards owner = []))
  | .settle owner => inferInstanceAs (Decidable (work.canSettle owner = true))

def Legal : Workload → List Action → Bool
  | _, [] => true
  | work, action :: actions =>
    decide (work.Enabled action) && Legal (work.after action) actions

theorem Run.of_legal {allowed : Action → Prop} {first work : Workload} (actions : List Action)
    (run : Run allowed first work) (kinds : ∀ action ∈ actions, allowed action)
    (legal : Legal work actions = true) : Run allowed first (actions.foldl after work) := by
  induction actions generalizing work with
  | nil => exact run
  | cons action actions ih =>
    simp only [Legal, Bool.and_eq_true, decide_eq_true_eq] at legal
    obtain ⟨kind, kinds⟩ := List.forall_mem_cons.mp kinds
    exact ih (.step action run kind legal.1) kinds legal.2

def smallPool : Pool where
  config := { pageSize := 16, poolPages := 1 }
  disk := .blank
  tables := ∅
  nextTable := 0
  locks := .empty
  cache := .empty
  stats := .zero

def numbers : Schema := ⟨[.int], List.cons_ne_nil _ _⟩

def puts (owner : TransactionId) (number : Int32) (steps : Nat) : List Action :=
  .call owner (.insert ⟨0⟩ (.ofFields [.int number])) :: List.replicate steps (.advance owner)

def filling : List Action := puts ⟨1⟩ 7 7 ++ [.finish ⟨1⟩ true, .settle ⟨1⟩, .settle ⟨1⟩]

end Workload
end PagedTables
