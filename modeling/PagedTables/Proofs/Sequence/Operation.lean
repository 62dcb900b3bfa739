import PagedTables.Proofs.Sequence.Alone

/-! What can be asked of a pool, one thing after another, and the answers. -/

namespace PagedTables

inductive Operation
  | create (name : String) (schema : Schema)
  | attach (name : String) (schema : Schema)
  /-- A request that cannot be granted at once is given up. A fetched page is looked at and let go. -/
  | call (owner : TransactionId) (call : Call)
  | rewind (cursor : Cursor)
  | complete (owner : TransactionId) (commit : Bool)
  | hook (hook : Hook)
deriving DecidableEq

def Operation.registers : Operation → Bool
  | create _ _ | attach _ _ => true
  | _ => false

inductive Answer
  | table (made : Except Failure TableId)
  | page (heap : Option HeapPage)
  | ended (finish : Finish)
  | opened (cursor : Cursor)
  | done (result : Except Failure Unit)
  | unfinished (task : Task)

def Finish.isExhausted : Finish → Bool
  | failed failure => failure.isExhausted
  | scanned _ (some failure) => failure.isExhausted
  | _ => false

def Answer.isExhausted : Answer → Bool
  | ended finish => finish.isExhausted
  | _ => false

def Answer.slots? : Answer → Option Slots
  | page heap => heap.map (·.slots)
  | _ => none

def Answer.isUnfinished : Answer → Bool
  | unfinished _ => true
  | _ => false

namespace Pool

def answer : Pool × Progress → Pool × Answer
  | (pool, .finished (.guarded guard)) => ((pool.drop guard).1, .page (pool.view guard))
  | (pool, .finished finish) => (pool, .ended finish)
  | (pool, .running task) => (pool, .unfinished task)

def perform (pool : Pool) : Operation → Pool × Answer
  | .create name schema =>
    let (pool, made) := pool.createTable name schema
    (pool, .table made)
  | .attach name schema =>
    let (pool, made) := pool.openTable name schema
    (pool, .table made)
  | .call owner call => answer (pool.run false (call.begin pool owner))
  | .rewind cursor => (pool, .opened (cursor.rewind pool.disk))
  | .complete owner commit =>
    let (pool, result) := pool.complete owner commit
    (pool, .done result)
  | .hook hook =>
    let (pool, result) := hook.run pool
    (pool, .done result)

def trace (pool : Pool) : List Operation → List (Pool × Answer)
  | [] => []
  | operation :: operations =>
    pool.perform operation :: (pool.perform operation).1.trace operations

/-- A file is opened for one table only, and no file is too long for its pages to be numbered. -/
def Admits (pool : Pool) : Operation → Prop
  | .attach name schema => pool.Unregistered
      (HeapFile.attach pool.disk name ⟨pool.nextTable⟩ schema pool.config.pageSize)
  | .call _ _ => pool.Bounded
  | .create _ _ | .rewind _ | .complete _ _ | .hook _ => True

def AdmitsAll (pool : Pool) : List Operation → Prop
  | [] => True
  | operation :: operations =>
    pool.Admits operation ∧ (pool.perform operation).1.AdmitsAll operations

instance (pool : Pool) : (operation : Operation) → Decidable (pool.Admits operation)
  | .attach _ _ => inferInstanceAs (Decidable (pool.Unregistered _))
  | .call _ _ => inferInstanceAs (Decidable pool.Bounded)
  | .create _ _ | .rewind _ | .complete _ _ | .hook _ => inferInstanceAs (Decidable True)

instance decidableAdmitsAll (pool : Pool) :
    (operations : List Operation) → Decidable (pool.AdmitsAll operations)
  | [] => inferInstanceAs (Decidable True)
  | operation :: operations =>
    have := (pool.perform operation).1.decidableAdmitsAll operations
    inferInstanceAs (Decidable (_ ∧ _))

end Pool

variable {start : Disk} {pool : Pool} {owner : TransactionId} {call : Call} {progress : Progress}

theorem Task.left_le_stepsFor (task : Task) (pool : Pool) : task.left ≤ pool.stepsFor task := by
  have phases : ∀ phase : Phase, phase.left ≤ 4 := fun phase => by cases phase <;> simp [Phase.left]
  unfold Pool.stepsFor
  cases task with
  | extend owner job =>
    simp only [Task.left, Pool.pagesAhead]
    omega
  | access access =>
    obtain ⟨owner, page, purpose, phase⟩ := access
    have phase := phases phase
    cases purpose <;> simp only [Task.left, Purpose.left, Pool.pagesAhead] <;> omega

theorem Pool.run_eq (pool : Pool) (progress : Progress) :
    ∃ fuel, progress.left ≤ fuel ∧ pool.run false progress = pool.runSteps false fuel progress := by
  cases progress with
  | finished finish => exact ⟨0, Nat.le_refl 0, rfl⟩
  | running task => exact ⟨pool.stepsFor task, task.left_le_stepsFor pool, rfl⟩

structure Pool.Settled (start : Disk) (pool : Pool) : Prop where
  fresh : pool.Fresh start
  quiet : pool.Quiet

theorem Call.Begins.attended (begins : call.Begins pool owner progress) (quiet : pool.Quiet) :
    progress.Attended pool := by
  have advanced : ∀ (cursor : Cursor) (toEnd : Bool), (cursor.advance toEnd).Attended pool := by
    intro cursor toEnd
    unfold Cursor.advance
    split
    · exact quiet
    · exact quiet
  cases begins with
  | failed failure => exact quiet
  | fetches page mode => exact quiet
  | scans table file registered => exact advanced _ _
  | resumes cursor => exact advanced _ _
  | places table tuple file registered some => exact quiet
  | appends table tuple file registered none => exact quiet
  | removes tuple record placed => exact quiet

theorem Call.Begins.ahead (begins : call.Begins pool owner progress) (bounded : pool.Bounded) :
    progress.Ahead pool := by
  cases begins with
  | failed failure => exact trivial
  | fetches page mode => exact trivial
  | scans table file registered => exact (Progress.left_advance pool _ _).2
  | resumes cursor => exact (Progress.left_advance pool _ _).2
  | places table tuple file registered some => exact ⟨some, bounded⟩
  | appends table tuple file registered none => exact bounded
  | removes tuple record placed => exact trivial

theorem Pool.Settled.begins (settled : pool.Settled start) (bounded : pool.Bounded) (call : Call)
    (owner : TransactionId) : (call.begin pool owner).Alone start pool := by
  have begins := call.begins_begin pool owner
  exact ⟨settled.fresh, begins.registered settled.fresh.sound, begins.attended settled.quiet,
    begins.ahead bounded⟩

namespace Pool

theorem Quiet.flushPage (quiet : pool.Quiet) (page : PageId) : (pool.flushPage page).1.Quiet := by
  have flushes := pool.flushPage_flushes page
  generalize pool.flushPage page = result at flushes ⊢
  cases flushes with
  | absent absent => exact quiet
  | clean resident present clean => exact quiet
  | failed failure => exact quiet
  | written resident present writer dirty file registered disk writes cache replaces stats =>
    intro other found here
    rcases replaces.cases here with ⟨rfl, rfl⟩ | ⟨_, here⟩
    · exact quiet other resident present
    · exact quiet other found here

theorem Settled.flushPage (settled : pool.Settled start) (page : PageId) :
    (pool.flushPage page).1.Settled start :=
  ⟨settled.fresh.flushPage page, settled.quiet.flushPage page⟩

theorem Settled.discardPage (settled : pool.Settled start) (page : PageId) :
    (pool.discardPage page).Settled start := by
  refine ⟨settled.fresh.discardPage page, ?_⟩
  have discards := pool.discardPage_discards page
  generalize pool.discardPage page = later at discards ⊢
  cases discards with
  | absent absent => exact settled.quiet
  | dropped cache drops stats =>
    obtain ⟨_, _, frames, _⟩ := Cache.of_discard drops
    exact fun other found here =>
      settled.quiet other found (Cache.cached_of_left frames here).2

theorem Settled.releaseAll (settled : pool.Settled start) (owner : TransactionId) :
    (pool.releaseAll owner).Settled start :=
  ⟨settled.fresh.releaseAll owner, settled.quiet⟩

theorem Settled.complete (settled : pool.Settled start) (owner : TransactionId) (commit : Bool) :
    (pool.complete owner commit).1.Settled start :=
  complete_keeps (Settled start) (fun _ page settled => settled.flushPage page)
    (fun _ page settled => settled.discardPage page) (fun _ owner settled => settled.releaseAll owner)
    owner commit settled

theorem Settled.hook (settled : pool.Settled start) (hook : Hook) :
    (hook.run pool).1.Settled start :=
  hook.run_keeps (Settled start) (fun _ page settled => settled.flushPage page)
    (fun _ page settled => settled.discardPage page)
    (fun _ owner page settled => ⟨settled.fresh.releasePage owner page, settled.quiet⟩) settled

theorem settled_answer {finish : Finish} (alone : (Progress.finished finish).Alone start pool) :
    (answer (pool, .finished finish)).1.Settled start := by
  obtain ⟨fresh, _, attended, _⟩ := alone
  cases finish with
  | failed failure => exact ⟨fresh, attended⟩
  | locked => exact ⟨fresh, attended⟩
  | modified pages => exact ⟨fresh, attended⟩
  | scanned cursor failure => exact ⟨fresh, attended⟩
  | guarded guard =>
    obtain ⟨latch, held, attends⟩ := attended
    obtain ⟨cache, same, visits⟩ := pool.visits_drop guard
    exact ⟨show (pool.drop guard).1.Fresh start from same ▸ fresh.visits visits,
      (attends.dropped fresh held).1⟩

theorem sameTables_answer (pool : Pool) (progress : Progress) :
    pool.SameTables (answer (pool, progress)).1 := by
  cases progress with
  | running task => exact ⟨rfl, rfl⟩
  | finished finish =>
    cases finish with
    | guarded guard => exact pool.sameTables_drop guard
    | failed | locked | modified | scanned => exact ⟨rfl, rfl⟩

theorem sameTables_run (pool : Pool) (patient : Bool) (progress : Progress) :
    pool.SameTables (pool.run patient progress).1 := by
  cases progress with
  | finished finish => exact ⟨rfl, rfl⟩
  | running task =>
    exact runSteps_keeps (fun later _ => pool.SameTables later)
      (fun later task same => same.trans (task.stepsTo_step later).sameTables)
      (fun later task _ same => same.trans (task.stepsTo_expired later).sameTables) patient
      (pool.stepsFor task) ⟨rfl, rfl⟩

theorem Numbered.perform {count : Nat} (numbered : pool.Numbered count) (operation : Operation) :
    (pool.perform operation).1.Numbered (count + [operation].countP Operation.registers) := by
  cases operation with
  | create name schema =>
    have same : pool.SameTables { pool with
      disk := (HeapFile.create pool.disk name ⟨pool.nextTable⟩ schema pool.config.pageSize).1 } :=
      ⟨rfl, rfl⟩
    exact (numbered.same same).register _
  | attach name schema => exact numbered.register _
  | call owner call =>
    have ran := pool.sameTables_run false (call.begin pool owner)
    exact numbered.same (ran.trans (sameTables_answer _ _))
  | rewind cursor => exact numbered
  | complete owner commit =>
    exact numbered.same <| complete_keeps pool.SameTables
      (fun later page same => same.trans (later.sameTables_flushPage page))
      (fun later page same => same.trans (later.sameTables_discardPage page))
      (fun _ _ same => ⟨same.tables, same.nextTable⟩) owner commit ⟨rfl, rfl⟩
  | hook hook => exact numbered.same (hook.sameTables pool)

theorem Settled.perform (settled : pool.Settled start) {operation : Operation}
    (admits : pool.Admits operation) (free : operation.registers = true → pool.HasTableId) :
    (pool.perform operation).1.Settled start ∧
      (pool.perform operation).2.isUnfinished = false := by
  have sound := settled.fresh.sound
  cases operation with
  | create name schema =>
    refine ⟨⟨settled.fresh.registers (sound.registers_create (free rfl) name schema), ?_⟩, rfl⟩
    obtain ⟨disk, tables, nextTable, same, _⟩ := pool.createTable_cases name schema
    show (pool.createTable name schema).1.Quiet
    rw [same]
    exact settled.quiet
  | attach name schema =>
    have registers := sound.registers_unregistered (free rfl) admits
    refine ⟨⟨settled.fresh.registers registers, ?_⟩, rfl⟩
    obtain ⟨tables, nextTable, same⟩ := pool.register_cases
      (HeapFile.attach pool.disk name ⟨pool.nextTable⟩ schema pool.config.pageSize)
    show (pool.openTable name schema).1.Quiet
    rw [openTable, same]
    exact settled.quiet
  | rewind cursor => exact ⟨settled, rfl⟩
  | complete owner commit => exact ⟨settled.complete owner commit, rfl⟩
  | hook hook => exact ⟨settled.hook hook, rfl⟩
  | call owner call =>
    obtain ⟨fuel, enough, ran⟩ := pool.run_eq (call.begin pool owner)
    obtain ⟨finish, ends, alone⟩ := (settled.begins admits call owner).runSteps fuel enough
    rw [← ran] at ends alone
    have final : pool.run false (call.begin pool owner) =
        ((pool.run false (call.begin pool owner)).1, .finished finish) := by rw [← ends]
    simp only [Pool.perform]
    rw [final]
    refine ⟨settled_answer alone, ?_⟩
    cases finish <;> rfl

end Pool

end PagedTables
