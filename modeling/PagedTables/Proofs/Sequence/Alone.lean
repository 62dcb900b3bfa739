import PagedTables.Proofs.Pool.Alone
import PagedTables.Proofs.Workload.Freshness

/-! An operation that is alone on a pool ends within the steps it is given: each step brings it nearer
to its end. -/

namespace PagedTables

def Phase.left : Phase → Nat
  | ask => 4
  | wait => 3
  | pin => 2
  | use _ => 1

def Purpose.left (page : PageId) : Purpose → Nat
  | lock _ | guard _ | mark => 0
  | remove _ _ | claim _ => 4
  | place _ stop => 4 * (stop.toNat - (page.number.toNat + 1)) + 9
  | visit cursor _ => 4 * (cursor.numPages.toNat - (cursor.nextPage.toNat + 1))

def Task.left : Task → Nat
  | access current => current.phase.left + current.purpose.left current.page
  | extend _ _ => 9

def Progress.left : Progress → Nat
  | running task => task.left
  | finished _ => 0

/-- A search has not passed its last page, and a page that was appended has room. -/
def Purpose.Ahead (pool : Pool) (page : PageId) : Purpose → Prop
  | place _ stop => page.number < stop ∧ pool.Bounded
  | visit cursor _ => cursor.nextPage < cursor.numPages
  | claim _ => ∀ heap, pool.shown page = .ok heap → heap.freeCount ≠ 0
  | lock _ | guard _ | mark | remove _ _ => True

def Task.Ahead (pool : Pool) : Task → Prop
  | access current => current.purpose.Ahead pool current.page
  | extend _ _ => pool.Bounded

def Progress.Ahead (pool : Pool) : Progress → Prop
  | running task => task.Ahead pool
  | finished _ => True

def Task.Attended (pool : Pool) : Task → Prop
  | access ⟨_, page, _, .use stay⟩ => pool.Attends page stay (.shared 0)
  | access ⟨_, _, _, .ask⟩ | access ⟨_, _, _, .wait⟩ | access ⟨_, _, _, .pin⟩ | extend _ _ => pool.Quiet

def Finish.Attended (pool : Pool) : Finish → Prop
  | guarded guard => ∃ latch : Latch, latch.Held ∧ pool.Attends guard.page guard.stay latch
  | failed _ | locked | modified _ | scanned _ _ => pool.Quiet

def Progress.Attended (pool : Pool) : Progress → Prop
  | running task => task.Attended pool
  | finished finish => finish.Attended pool

structure Progress.Alone (start : Disk) (pool : Pool) (progress : Progress) : Prop where
  fresh : pool.Fresh start
  registered : progress.Registered pool
  attended : progress.Attended pool
  ahead : progress.Ahead pool

variable {start : Disk} {pool later : Pool} {task : Task} {access : Access} {owner : TransactionId}
  {page : PageId} {heap : HeapPage}

theorem Pool.Alike.bounded (alike : pool.Alike later) (bounded : pool.Bounded) : later.Bounded := by
  unfold Pool.Bounded
  rw [← alike.tables, ← alike.disk]
  exact bounded

theorem Purpose.Ahead.congr {purpose : Purpose} (ahead : purpose.Ahead pool page)
    (shown : later.shown page = pool.shown page) (bounded : pool.Bounded → later.Bounded) :
    purpose.Ahead later page := by
  cases purpose with
  | place job stop => exact ⟨ahead.1, bounded ahead.2⟩
  | visit cursor toEnd => exact ahead
  | claim job =>
    intro heap shows
    exact ahead heap (shown.symm.trans shows)
  | lock mode => exact trivial
  | guard mode => exact trivial
  | mark => exact trivial
  | remove tuple remarked => exact trivial

theorem Purpose.attended_failed (purpose : Purpose) (failure : Failure) (quiet : pool.Quiet) :
    (purpose.failed failure).Attended pool := by
  cases purpose <;> exact quiet

theorem Purpose.Leads.attended {purpose : Purpose} {progress : Progress}
    (leads : purpose.Leads owner heap progress) (quiet : pool.Quiet) : progress.Attended pool := by
  cases leads with
  | remarked => exact quiet
  | passed job stop more => exact quiet
  | filled _ job wants => exact quiet
  | ended _ final closes =>
    obtain rfl | ⟨failure, rfl⟩ | rfl := closes
    · exact quiet
    · exact quiet
    · exact quiet
  | visited cursor toEnd =>
    unfold Cursor.advance
    split
    · exact quiet
    · exact quiet

theorem Progress.left_advance (pool : Pool) (cursor : Cursor) (toEnd : Bool) :
    (cursor.advance toEnd).left ≤ 4 * (cursor.numPages.toNat - cursor.nextPage.toNat) ∧
      (cursor.advance toEnd).Ahead pool := by
  unfold Cursor.advance
  split
  · next place wanted =>
    unfold Cursor.wanted at wanted
    split at wanted
    · next more =>
      simp only [Bool.and_eq_true, decide_eq_true_eq] at more
      have below := UInt32.lt_iff_toNat_lt.mp more.2
      refine ⟨?_, more.2⟩
      simp only [Progress.ask, Progress.left, Task.left, Phase.left, Purpose.left]
      omega
    · cases wanted
  · exact ⟨Nat.zero_le _, trivial⟩

theorem Progress.left_changed (pool : Pool) (owner : TransactionId) (page : PageId) (remarked : Bool) :
    (Progress.changed owner page remarked).left ≤ 4 ∧
      (Progress.changed owner page remarked).Ahead pool := by
  unfold Progress.changed
  split
  · exact ⟨Nat.le_refl _, trivial⟩
  · exact ⟨Nat.zero_le _, trivial⟩

theorem Purpose.left_act {purpose : Purpose} (owner : TransactionId)
    (ahead : purpose.Ahead pool page) (named : heap.id = page) (shown : pool.shown page = .ok heap)
    (cache : Cache) :
    (purpose.act owner heap).2.left ≤ purpose.left page ∧
      (purpose.act owner heap).2.Ahead { pool with cache } := by
  have placed : ∀ (job : Insertion) (full : Progress) (bound : Nat), 4 ≤ bound →
      (heap.freeCount = 0 → full.left ≤ bound ∧ full.Ahead { pool with cache }) →
        (job.tryPage owner heap full).2.left ≤ bound ∧
          (job.tryPage owner heap full).2.Ahead { pool with cache } := by
    intro job full bound enough next
    unfold Insertion.tryPage
    split
    · next full => exact next full
    · split
      · exact ⟨Nat.zero_le _, trivial⟩
      · have changed := Progress.left_changed { pool with cache } owner heap.id job.remarked
        next after record inserted =>
        obtain ⟨_, rfl⟩ := HeapPage.insert_eq inserted
        exact ⟨Nat.le_trans changed.1 enough, changed.2⟩
  -- A full page costs a search one page number; a page that was appended is not full.
  cases purpose with
  | lock mode => exact ⟨Nat.le_refl _, trivial⟩
  | guard mode => exact ⟨Nat.le_refl _, trivial⟩
  | mark => exact ⟨Nat.le_refl _, trivial⟩
  | claim job => exact placed job _ _ (Nat.le_refl _) fun full => absurd full (ahead heap shown)
  | remove tuple remarked =>
    simp only [act]
    cases deleted : heap.delete tuple with
    | error failure => exact ⟨Nat.zero_le _, trivial⟩
    | ok after =>
      obtain ⟨record, _, _, rfl⟩ := HeapPage.delete_eq deleted
      exact Progress.left_changed { pool with cache } owner heap.id remarked
  | visit cursor toEnd =>
    obtain ⟨left, next⟩ := Progress.left_advance { pool with cache } (cursor.visit heap) toEnd
    refine ⟨Nat.le_trans left ?_, next⟩
    have counted := toNat_succ_of_lt ahead
    simp only [Cursor.visit, counted, Purpose.left]
    exact Nat.le_refl _
  | place job stop =>
    subst named
    obtain ⟨below, bounded⟩ := ahead
    refine placed job _ _ (by simp only [Purpose.left]; omega) fun _ => ?_
    have counted := toNat_succ_of_lt below
    have below := UInt32.lt_iff_toNat_lt.mp below
    split
    · next more =>
      have more' := UInt32.lt_iff_toNat_lt.mp more
      refine ⟨?_, more, bounded⟩
      rw [counted] at more'
      simp only [Progress.ask, Progress.left, Task.left, Phase.left, Purpose.left, counted]
      omega
    · refine ⟨?_, bounded⟩
      simp only [Progress.left, Task.left, Purpose.left]
      omega

theorem LockManager.expire_ne_waiting (manager : LockManager) (page : PageId) (owner : TransactionId)
    (mode : LockMode) : (manager.expire page owner mode).2 ≠ .waiting := by
  unfold expire
  simp only
  split <;> simp

/-- Lets a task take its next step. It does not wait for a lock longer than it has to. -/
def Task.move (pool : Pool) (task : Task) : Pool × Progress :=
  if task.isWaiting then task.expire pool else task.step pool

theorem Task.stepsTo_move (task : Task) (pool : Pool) : StepsTo pool task (task.move pool) := by
  unfold move
  split
  · exact stepsTo_expired task pool
  · exact stepsTo_step task pool

structure Progress.Nears (bound : Nat) (result : Pool × Progress) : Prop where
  left : result.2.left < bound
  attended : result.2.Attended result.1
  ahead : result.2.Ahead result.1

theorem Access.nears_answered (quiet : pool.Quiet) (ahead : access.purpose.Ahead pool access.page)
    (locks : LockManager) (answer : LockAnswer) (early : 2 < access.phase.left)
    (waits : answer = .waiting → 3 < access.phase.left) :
    Progress.Nears (Task.access access).left (access.answered { pool with locks } answer) := by
  obtain ⟨owner, page, purpose, phase⟩ := access
  have ahead : purpose.Ahead pool page := ahead
  have before : (Task.access ⟨owner, page, purpose, phase⟩).left = phase.left + purpose.left page := rfl
  have early : 2 < phase.left := early
  have kept : ∀ stats, purpose.Ahead { pool with locks, stats } page :=
    fun stats => ahead.congr rfl id
  have goes : ∀ next : Phase, next.left < phase.left → (∀ stay, next ≠ .use stay) →
      Progress.Nears (Task.access ⟨owner, page, purpose, phase⟩).left
        ({ pool with locks }, .running (.access ⟨owner, page, purpose, next⟩)) := by
    intro next nearer unused
    refine ⟨?_, ?_, kept pool.stats⟩
    · rw [before]
      exact Nat.add_lt_add_right nearer _
    · cases next with
      | use stay => exact absurd rfl (unused stay)
      | ask => exact quiet
      | wait => exact quiet
      | pin => exact quiet
  have ends : ∀ (stats : Statistics) (finish : Finish),
      finish.Attended { pool with locks, stats } →
        Progress.Nears (Task.access ⟨owner, page, purpose, phase⟩).left
          ({ pool with locks, stats }, .finished finish) := by
    intro stats finish attended
    refine ⟨?_, attended, trivial⟩
    rw [before]
    exact Nat.lt_of_lt_of_le (Nat.zero_lt_of_lt early) (Nat.le_add_right _ _)
  have fails := fun stats failure => ends stats (purpose.failed failure)
    (purpose.attended_failed failure quiet)
  -- Who wants no more than the lock has come to the end; all others have the page to pin.
  cases answer with
  | waiting => exact goes .wait (waits rfl) (by simp)
  | timedOut => exact fails pool.stats _
  | granted =>
    have held := goes .pin early (by simp)
    cases purpose with
    | lock mode => exact ends pool.stats .locked quiet
    | guard mode => exact held
    | place job stop => exact held
    | claim job => exact held
    | remove tuple remarked => exact held
    | mark => exact held
    | visit cursor toEnd => exact held
  | deadlock =>
    have closed := fails (pool.stats.count .deadlocks)
    cases purpose with
    | lock mode => exact fails pool.stats _
    | guard mode => exact closed _
    | place job stop => exact closed _
    | claim job => exact closed _
    | remove tuple remarked => exact closed _
    | mark => exact closed _
    | visit cursor toEnd => exact closed _

theorem Access.nears_pin (fresh : pool.Fresh start) (quiet : pool.Quiet)
    (ahead : access.purpose.Ahead pool access.page) (phase : access.phase = .pin) :
    Progress.Nears (Task.access access).left (access.pin pool) := by
  have alike := access.alike_pin pool
  have pinned := access.pinned_pin fresh quiet
  have before : (Task.access access).left = 2 + access.purpose.left access.page := by
    rw [Task.left, phase]
    rfl
  have ends : ∀ (later : Pool) (failure : Failure), later.Quiet →
      Progress.Nears (Task.access access).left
        (later, .finished (access.purpose.failed failure)) := by
    intro later failure quiet
    refine ⟨?_, access.purpose.attended_failed failure quiet, trivial⟩
    rw [before]
    exact Nat.lt_of_lt_of_le Nat.two_pos (Nat.le_add_right _ _)
  generalize access.pin pool = result at alike pinned ⊢
  cases pinned with
  | exhausted later quiet failure exhausted => exact ends later failure quiet
  | unread later quiet failure unread => exact ends later failure quiet
  | pinned later stay attends heap shown =>
    refine ⟨?_, attends, ahead.congr (alike.shown access.page).symm alike.bounded⟩
    rw [before]
    exact Nat.add_lt_add_right Nat.one_lt_two _

theorem Access.nears_use (fresh : pool.Fresh start) {stay : Nat}
    (attends : pool.Attends access.page stay (.shared 0))
    (ahead : access.purpose.Ahead pool access.page) (phase : access.phase = .use stay) :
    Progress.Nears (Task.access access).left (access.use pool stay) := by
  have before : (Task.access access).left = 1 + access.purpose.left access.page := by
    rw [Task.left, phase]
    rfl
  by_cases works : ∀ mode, access.purpose ≠ .guard mode
  · obtain ⟨resident, cache, frame, present, used, _, _, quiet⟩ :=
      access.use_attended attends works
    obtain ⟨file, housed⟩ := fresh.sound.housed access.page resident present
    have shown := fresh.shown_cached present
    obtain ⟨left, next⟩ := Purpose.left_act access.owner ahead housed.id shown cache
    have leads := access.purpose.leads_act access.owner resident.frame.page
    rw [used]
    refine ⟨?_, leads.attended quiet, next⟩
    rw [before, Nat.add_comm]
    exact Nat.lt_succ_of_le left
  · obtain ⟨owner, page, purpose, _⟩ := access
    obtain ⟨mode, rfl⟩ : ∃ mode, purpose = .guard mode := by simpa using works
    obtain rfl := phase
    obtain ⟨latch, cache, used, held, attends, _⟩ := guarded_attended owner mode attends
    rw [used]
    exact ⟨Nat.one_pos, ⟨latch, held, attends⟩, trivial⟩

theorem Task.nears_extend {job : Insertion} (fresh : pool.Fresh start) (quiet : pool.Quiet)
    (bounded : pool.Bounded) (registered : job.Registered pool) :
    Progress.Nears (Task.extend owner job).left ((Task.extend owner job).step pool) := by
  simp only [step, Pool.appendPage]
  cases made : job.file.appendBlank pool.disk with
  | error failure => exact ⟨Nat.succ_pos 8, quiet, trivial⟩
  | ok result =>
    obtain ⟨disk, page⟩ := result
    obtain ⟨proper, same, _⟩ := fresh.sound.proper _ _ registered
    obtain ⟨appends, rfl⟩ := proper.appends (Nat.lt_of_lt_pred (bounded.few registered)) made
    refine ⟨Nat.lt_succ_self 8, quiet, fun heap shown => ?_⟩
    have blank := fresh.shown_lastPage registered appends
    obtain rfl := Except.ok.inj (shown.symm.trans blank)
    rw [HeapPage.freeCount, HeapPage.blank, List.countP_replicate]
    exact Nat.ne_of_gt proper.layout.slots_pos

theorem Progress.Alone.nears (alone : (Progress.running task).Alone start pool) :
    Progress.Nears task.left (task.move pool) := by
  obtain ⟨fresh, registered, attended, ahead⟩ := alone
  cases task with
  | extend owner job => exact Task.nears_extend fresh attended ahead (registered job rfl)
  | access access =>
    obtain ⟨owner, page, purpose, phase⟩ := access
    cases phase with
    | ask =>
      exact Access.nears_answered attended ahead _ _ (Nat.lt_add_of_pos_right Nat.two_pos) fun _ =>
        Nat.lt_succ_self 3
    | wait =>
      refine Access.nears_answered attended ahead _ _ (Nat.lt_succ_self 2) fun waits => ?_
      exact absurd waits (LockManager.expire_ne_waiting _ _ _ _)
    | pin => exact Access.nears_pin fresh attended ahead rfl
    | use stay => exact Access.nears_use fresh attended ahead rfl

theorem Progress.Registered.congr {progress : Progress} (registered : progress.Registered pool)
    (same : later.tables = pool.tables) : progress.Registered later := by
  cases progress with
  | finished finish => exact trivial
  | running task =>
    intro job wants
    have kept := registered job wants
    rwa [Insertion.Registered, ← same] at kept

theorem Progress.Alone.move (alone : (Progress.running task).Alone start pool) :
    (task.move pool).2.left < task.left ∧ (task.move pool).2.Alone start (task.move pool).1 := by
  have steps := task.stepsTo_move pool
  have few : ∀ owner job, task = .extend owner job → job.file.HasNumber pool.disk := by
    rintro owner job rfl
    have bounded : pool.Bounded := alone.ahead
    exact bounded.few (alone.registered job rfl)
  obtain ⟨left, attended, ahead⟩ := alone.nears
  exact ⟨left, alone.fresh.stepsTo steps few alone.registered,
    (steps.registered alone.registered).congr steps.sameTables.tables, attended, ahead⟩

theorem Pool.runSteps_finished (patient : Bool) (fuel : Nat) (pool : Pool) (finish : Finish) :
    runSteps patient fuel pool (.finished finish) = (pool, .finished finish) := by
  cases fuel <;> rfl

theorem Pool.runSteps_of_not_waiting (patient : Bool) (fuel : Nat) (pool : Pool) {task : Task}
    (goes : task.isWaiting = false) : runSteps patient (fuel + 1) pool (.running task) =
      runSteps patient fuel (task.step pool).1 (task.step pool).2 := by
  rw [runSteps, if_neg (by simp [goes])]

theorem Pool.runSteps_running (fuel : Nat) (pool : Pool) (task : Task) :
    runSteps false (fuel + 1) pool (.running task) =
      runSteps false fuel (task.move pool).1 (task.move pool).2 := by
  rw [runSteps, Task.move]
  split
  · rfl
  · rfl

/-- What each step of a task keeps is kept when an operation is run, however far it is run. -/
theorem Pool.runSteps_keeps (kept : Pool → Progress → Prop)
    (step : ∀ (pool : Pool) (task : Task), kept pool (.running task) →
      kept (task.step pool).1 (task.step pool).2)
    (expire : ∀ (pool : Pool) (task : Task), task.isWaiting = true → kept pool (.running task) →
      kept (task.expire pool).1 (task.expire pool).2)
    (patient : Bool) (fuel : Nat) {pool : Pool} {progress : Progress} (before : kept pool progress) :
    kept (runSteps patient fuel pool progress).1 (runSteps patient fuel pool progress).2 := by
  induction fuel generalizing pool progress with
  | zero => cases progress <;> exact before
  | succ fuel ih =>
    cases progress with
    | finished finish => exact before
    | running task =>
      have stepped := ih (step pool task before)
      rw [runSteps]
      split
      · next waiting =>
        split
        · split
          · exact stepped
          · exact before
        · exact ih (expire pool task waiting before)
      · exact stepped

theorem Pool.runSteps_ends (kept : Pool → Progress → Prop)
    (moves : ∀ (pool : Pool) (task : Task), kept pool (.running task) →
      (task.move pool).2.left < task.left ∧ kept (task.move pool).1 (task.move pool).2)
    (fuel : Nat) {pool : Pool} {progress : Progress} (before : kept pool progress)
    (enough : progress.left ≤ fuel) :
    ∃ finish, (runSteps false fuel pool progress).2 = .finished finish ∧
      kept (runSteps false fuel pool progress).1 (.finished finish) := by
  induction fuel generalizing pool progress with
  | zero =>
    cases progress with
    | finished finish => exact ⟨finish, rfl, before⟩
    | running task =>
      have nearer := (moves pool task before).1
      exact absurd (Nat.lt_of_lt_of_le nearer enough) (Nat.not_lt_zero _)
  | succ fuel ih =>
    cases progress with
    | finished finish => exact ⟨finish, rfl, before⟩
    | running task =>
      obtain ⟨nearer, next⟩ := moves pool task before
      rw [runSteps_running]
      exact ih next (Nat.le_of_lt_succ (Nat.lt_of_lt_of_le nearer enough))

theorem Progress.Alone.runSteps {progress : Progress} (fuel : Nat)
    (alone : progress.Alone start pool) (enough : progress.left ≤ fuel) :
    ∃ finish, (pool.runSteps false fuel progress).2 = .finished finish ∧
      (Progress.finished finish).Alone start (pool.runSteps false fuel progress).1 :=
  Pool.runSteps_ends (fun pool progress => progress.Alone start pool) (fun _ _ => Alone.move) fuel
    alone enough

end PagedTables
