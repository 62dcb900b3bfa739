import PagedTables.Proofs.Workload.Reading

/-! Who can make a table longer. Whoever looks for room in a table that has pages begins with the first
one and keeps its lock, so a transaction that has this page locked holds everybody up there. -/

namespace PagedTables

/-- The table that a task appends a page to, or has appended one to that is for its tuple only. -/
def Task.extends? : Task → Option TableId
  | access ⟨_, _, .claim job, _⟩ => some job.file.table
  | access _ => none
  | extend _ job => some job.file.table

def Stage.extends? : Stage → Option TableId
  | working _ task => task.extends?
  | _ => none

/-- The search for room is past the first page of a table under that page's lock. -/
def Access.Anchored (table : LockTable) (access : Access) : Prop :=
  ∀ job stop, access.purpose = .place job stop → access.page.table = job.file.table ∧
    (access.page.number ≠ 0 → table.Holds access.owner ⟨job.file.table, 0⟩ .exclusive)

def Progress.Anchored (table : LockTable) : Progress → Prop
  | running (.access access) => access.Anchored table
  | running (.extend _ _) => True
  | finished _ => True

section Task

variable {owner : TransactionId} {pool : Pool} {task : Task} {result : Pool × Progress}
  {progress : Progress} {call : Call} {heap : HeapPage} {table : LockTable} {access : Access}

theorem Progress.anchored_ask {purpose : Purpose} (page : PageId)
    (other : ∀ job stop, purpose ≠ .place job stop) :
    (Progress.ask owner page purpose).Anchored table :=
  fun job stop same => absurd same (other job stop)

theorem Progress.anchored_advance (cursor : Cursor) (toEnd : Bool) :
    (cursor.advance toEnd).Anchored table := by
  unfold Cursor.advance
  split
  · exact anchored_ask _ fun job stop => by simp
  · exact trivial

theorem Access.Anchored.mono {later : LockTable} (anchored : access.Anchored table)
    (holds : ∀ page mode, table.Holds access.owner page mode → later.Holds access.owner page mode) :
    access.Anchored later :=
  fun job stop purpose => (anchored job stop purpose).imp id fun past number => holds _ _ (past number)

theorem Task.job?_of_isRead (reads : task.isRead = true) : task.job? = none := by
  cases task with
  | extend worker job => cases reads
  | access access =>
    obtain ⟨worker, page, purpose, phase⟩ := access
    cases purpose with
    | place job stop => cases reads
    | claim job => cases reads
    | remove tuple remarked => cases reads
    | mark => cases reads
    | lock mode => rfl
    | guard mode => rfl
    | visit cursor toEnd => rfl

theorem Pool.Owned.id_of_shows (owned : pool.Owned) (labelled : pool.Labelled) {page : PageId}
    {stay : Nat} (shows : pool.cache.Shows page stay heap) : heap.id = page := by
  obtain ⟨resident, _, rfl, present | ⟨aside, named⟩⟩ := shows
  · exact owned.named page resident present
  · exact (labelled resident aside).trans named

theorem Task.StepsTo.anchored (owned : pool.Owned) (labelled : pool.Labelled)
    (steps : StepsTo pool task result) (grips : task.Grips pool.locks.table owner)
    (anchored : (Progress.running task).Anchored pool.locks.table) :
    result.2.Anchored result.1.locks.table := by
  have further := steps.extends
  cases steps with
  | granted access locks _ holds => exact Access.Anchored.mono anchored fun _ _ => further.holds
  | refused access locks _ => exact Access.Anchored.mono anchored fun _ _ => further.holds
  | stopped access locks _ stats finish stops => exact trivial
  | pinned access phase later serves size resident present =>
    exact Access.Anchored.mono anchored fun _ _ => further.holds
  | homeless access phase later serves size finish stops => exact trivial
  | looked access stay phase cache visits => exact anchored
  | guarded access stay phase cache visits => exact trivial
  | unextended worker job failure => exact trivial
  | idled => exact anchored
  | appended worker job disk page appends => exact Progress.anchored_ask page fun job stop => by simp
  | used access stay phase cache rewrites heap shows progress leads =>
    obtain ⟨rfl, _, holds⟩ := grips
    have holds := holds (.inr ⟨stay, phase⟩)
    have named := owned.id_of_shows labelled shows
    obtain ⟨worker, page, purpose, _⟩ := access
    subst named
    cases leads with
    | ended _ finish closes => exact trivial
    | remarked => exact Progress.anchored_ask _ fun job stop => by simp
    | filled _ job wants => exact trivial
    | visited cursor toEnd => exact Progress.anchored_advance _ _
    | passed job stop more =>
      obtain ⟨here, past⟩ := anchored job stop rfl
      rintro _ _ ⟨rfl, rfl⟩
      refine ⟨here, fun _ => ?_⟩
      -- Either this is the first page, or its lock was taken before.
      by_cases first : heap.id.number = 0
      · have same : heap.id = ⟨job.file.table, 0⟩ := by rw [← here, ← first]
        exact same ▸ holds
      · exact past first

theorem Task.StepsTo.waits {later : Pool} {page : PageId} {job : Insertion} {stop : UInt32}
    {phase : Phase}
    (steps : StepsTo pool (.access ⟨owner, page, .place job stop, phase⟩) (later, .running task))
    (early : phase = .ask ∨ phase = .wait)
    (free : ¬later.locks.table.Holds owner page .exclusive) :
    ∃ phase, task = .access ⟨owner, page, .place job stop, phase⟩ ∧
      (phase = .ask ∨ phase = .wait) := by
  cases steps with
  | granted _ locks further holds => exact absurd holds free
  | refused _ locks further => exact ⟨.wait, rfl, .inr rfl⟩
  | idled => exact ⟨phase, rfl, early⟩
  | pinned _ late => rcases early with rfl | rfl <;> cases late
  | looked _ stay late => rcases early with rfl | rfl <;> cases late
  | used _ stay late => rcases early with rfl | rfl <;> cases late

theorem Call.Begins.anchored (begins : call.Begins pool owner progress) :
    progress.Anchored table := by
  cases begins with
  | failed failure => exact trivial
  | fetches page mode => exact Progress.anchored_ask page fun job stop => by simp
  | scans table file registered => exact Progress.anchored_advance _ _
  | resumes cursor => exact Progress.anchored_advance _ _
  | appends table tuple file registered none => exact trivial
  | removes tuple record placed => exact Progress.anchored_ask _ fun job stop => by simp
  | places table tuple file registered some =>
    rintro _ _ ⟨rfl, rfl⟩
    exact ⟨rfl, fun past => absurd rfl past⟩

end Task

namespace Workload

inductive Onward (work : Workload) (later : Pool) (owner : TransactionId) (call : Call) (task : Task) :
    Prop
  | rests (here : work.stage owner = .working call task)
      (holds : ∀ page mode, work.pool.locks.table.Holds owner page mode →
        later.locks.table.Holds owner page mode)
  | begins (same : later = work.pool) (begins : call.Begins work.pool owner (.running task))
  | steps (before : Task) (here : work.stage owner = .working call before)
      (steps : before.StepsTo work.pool (later, .running task))

variable {start : Disk} {work : Workload} {action : Action} {owner : TransactionId} {call : Call}
  {task : Task} {table : TableId} {file : HeapFile}

theorem Orderly.onward (orderly : work.Orderly) (possible : work.Possible (.act action))
    (here : (work.next (.act action)).stage owner = .working call task) :
    Onward work (work.next (.act action)).pool owner call task := by
  have running : ∀ {call' : Call} {progress : Progress},
      (work.next (.act action)).stage owner = progress.stage call' →
        call' = call ∧ progress = .running task := by
    intro call' progress stage
    cases progress with
    | finished finish => cases stage.symm.trans here
    | running other =>
      obtain ⟨rfl, rfl⟩ := Stage.working.inj (stage.symm.trans here)
      exact ⟨rfl, rfl⟩
  -- The call of a transaction changes by its own actions; what others do costs it no lock.
  by_cases own : action.owner? = some owner
  · cases action with
    | create name schema => cases own
    | attach name schema => cases own
    | call actor call' =>
      obtain rfl := Option.some.inj own
      obtain ⟨pool, stage⟩ := work.next_call actor call'
      obtain ⟨rfl, same⟩ := running stage
      exact .begins pool (same ▸ call'.begins_begin work.pool actor)
    | advance actor | expire actor =>
      obtain rfl := Option.some.inj own
      obtain ⟨call', before, result, was, steps, pool, stage, _⟩ := exists_stepsTo possible rfl
      obtain ⟨rfl, same⟩ := running stage
      refine .steps before was ?_
      rw [pool, ← same]
      exact steps
    | drop actor guard =>
      obtain ⟨cache, same, _⟩ := work.pool.visits_drop guard
      have pool : (work.next (.act (.drop actor guard))).pool = { work.pool with cache } := same
      exact .rests here fun page mode holds => by rwa [pool]
    | finish actor commit =>
      obtain rfl := Option.some.inj own
      have ending : (work.next (.act (.finish actor commit))).stage actor =
          .ending commit (work.pool.heldPages actor) := Function.update_self ..
      cases ending.symm.trans here
    | settle actor =>
      obtain rfl := Option.some.inj own
      have quiet := quiet_settle possible
      rw [here] at quiet
      cases quiet
  · rw [work.stage_next_of_ne own] at here
    refine .rests here fun page mode holds => ?_
    rcases orderly.next_cases possible with filing | ⟨actor, acts, deed⟩
    · rwa [filing.locks]
    · have apart : owner ≠ actor := fun same => own (same ▸ acts)
      exact (deed.spares orderly.owned apart).holds page mode holds

def Anchored (work : Workload) : Prop :=
  ∀ owner call task, work.stage owner = .working call task →
    (Progress.running task).Anchored work.pool.locks.table

theorem anchored_start (pool : Pool) : (Workload.start pool).Anchored :=
  fun _ _ _ here => by cases here

theorem Anchored.next (anchored : work.Anchored) (steady : work.Steady start)
    (possible : work.Possible (.act action)) : (work.next (.act action)).Anchored := by
  intro owner call task here
  have gripped := steady.orderly.gripped owner
  cases steady.orderly.onward possible here with
  | begins same begins => exact begins.anchored
  | steps before was steps =>
    exact steps.anchored steady.orderly.owned steady.labelled (gripped.working call before was)
      (anchored owner call before was)
  | rests was holds =>
    cases task with
    | extend worker job => exact trivial
    | access access =>
      obtain ⟨mine, _⟩ := gripped.working call _ was
      exact Access.Anchored.mono (anchored owner call _ was) (mine.symm ▸ holds)

theorem Anchored.course {allowed : Workload → Step → Prop} {first : Workload}
    (anchored : first.Anchored) (steady : first.Steady start) (course : Course allowed first work)
    (kinds : ∀ work step, allowed work step → Unhooked step ∧ work.Filed step)
    (few : work.registrations ≤ 2 ^ 32) : work.Anchored := by
  induction course with
  | start => exact anchored
  | @step work step course possible kind ih =>
    have few' := Nat.le_trans (work.registers_next step).le few
    cases step with
    | hook hook => exact (kinds _ _ kind).1.elim
    | act action => exact (ih few').next (steady.course course kinds few') possible

/-- A transaction has locked the first page of a table, and nobody is about to put a tuple on a new
page. -/
structure Shuts (owner : TransactionId) (file : HeapFile) (work : Workload) : Prop where
  pages : file.numPages work.pool.disk ≠ 0
  locked : work.pool.locks.table.Holds owner ⟨file.table, 0⟩ .shared
  nobody : ∀ other, (work.stage other).extends? ≠ some file.table

/-- Whoever wants to insert into a table waits for its first page. -/
structure Barred (owner : TransactionId) (file : HeapFile) (work : Workload) : Prop where
  registered : work.pool.tables[file.table]? = some file
  pages : file.numPages work.pool.disk ≠ 0
  locked : work.pool.locks.table.Holds owner ⟨file.table, 0⟩ .shared
  waits : ∀ other call task job, work.stage other = .working call task → task.job? = some job →
    job.file.table = file.table → ∃ stop phase,
      task = .access ⟨other, ⟨file.table, 0⟩, .place job stop, phase⟩ ∧ (phase = .ask ∨ phase = .wait)

theorem Steady.not_holds (steady : work.Steady start) (reading : (work.stage owner).isRead = true)
    {page : PageId} (locked : work.pool.locks.table.Holds owner page .shared) {other : TransactionId}
    {job : Insertion} (here : work.stage other = .working call task) (wants : task.job? = some job) :
    ¬work.pool.locks.table.Holds other page .exclusive := by
  intro holds
  obtain rfl := holds.alone steady.orderly.owned.valid locked
  rw [here] at reading
  cases (Task.job?_of_isRead reading).symm.trans wants

theorem Shuts.barred (shuts : Shuts owner file work) (steady : work.Steady start)
    (anchored : work.Anchored) (registered : work.pool.tables[file.table]? = some file)
    (reading : (work.stage owner).isRead = true) : Barred owner file work := by
  refine ⟨registered, shuts.pages, shuts.locked, fun other call task job here wants there => ?_⟩
  have free := steady.not_holds reading shuts.locked here wants
  have nobody := shuts.nobody other
  rw [here] at nobody
  cases task with
  | extend worker job' =>
    obtain rfl := Option.some.inj wants
    exact absurd (congrArg some there) nobody
  | access access =>
    obtain ⟨mine, _, holds⟩ := (steady.orderly.gripped other).working call _ here
    have anchored := anchored other call _ here
    obtain ⟨worker, page, purpose, phase⟩ := access
    obtain rfl : worker = other := mine
    cases purpose with
    | lock mode => cases wants
    | guard mode => cases wants
    | remove tuple remarked => cases wants
    | mark => cases wants
    | visit cursor toEnd => cases wants
    | claim job' =>
      obtain rfl := Option.some.inj wants
      exact absurd (congrArg some there) nobody
    | place job stop =>
      obtain rfl := Option.some.inj wants
      obtain ⟨same, past⟩ := anchored job stop rfl
      have first : page.number = 0 := by
        by_contra beyond
        exact free (there ▸ past beyond)
      obtain rfl : page = ⟨file.table, 0⟩ := by rw [← there, ← same, ← first]
      refine ⟨stop, phase, rfl, ?_⟩
      cases phase with
      | ask => exact .inl rfl
      | wait => exact .inr rfl
      | pin => exact absurd (holds (.inl rfl)) free
      | use stay => exact absurd (holds (.inr ⟨stay, rfl⟩)) free

theorem Barred.next (barred : Barred owner file work) (steady : work.Steady start)
    (possible : work.Possible (.act action)) (reads : work.Reads owner (.act action))
    (few : (work.next (.act action)).registrations ≤ 2 ^ 32)
    (reading : (work.stage owner).isRead = true) :
    Barred owner file (work.next (.act action)) ∧
      file.numPages (work.next (.act action)).pool.disk = file.numPages work.pool.disk := by
  have fresh := steady.current.fresh
  have keeps := steady.keeps possible reads few reading
  have locked := keeps.holds _ _ barred.locked
  have same : file.numPages (work.next (.act action)).pool.disk = file.numPages work.pool.disk := by
    rcases steady.orderly.next_cases possible with filing | ⟨actor, acts, deed⟩
    · rcases steady.filing_cases filing reads.1 few with
        registers | ⟨actor, call, job, disk, here, registered, appends, _, pool⟩
      · exact registers.numPages_eq file
      · rw [pool]
        refine fresh.numPages_eq registered appends barred.registered fun there => ?_
        obtain ⟨_, _, absurd, _⟩ := barred.waits actor call _ job here rfl there.symm
        cases absurd
    · exact deed.numPages_eq fresh barred.registered
  refine ⟨⟨keeps.tables _ _ barred.registered, same ▸ barred.pages, locked,
    fun other call task job here wants there => ?_⟩, same⟩
  -- Whoever has a tuple for the table was held up before, or begins with the first page.
  cases steady.orderly.onward possible here with
  | rests was holds => exact barred.waits other call task job was wants there
  | begins pool begins =>
    generalize running : Progress.running task = progress at begins
    have wants : progress.job? = some job := running ▸ wants
    cases begins with
    | failed failure => cases wants
    | fetches page mode => cases wants
    | scans table file registered => cases (Progress.job?_advance _ _).symm.trans wants
    | resumes cursor => cases (Progress.job?_advance _ _).symm.trans wants
    | removes tuple record placed => cases wants
    | places table tuple holder registered some =>
      obtain rfl := Option.some.inj wants
      obtain rfl := Progress.running.inj running
      have there : holder.table = file.table := there
      exact ⟨_, .ask, by rw [there], .inl rfl⟩
    | appends table tuple holder registered none =>
      obtain rfl := Option.some.inj wants
      have own := (fresh.sound.proper _ _ registered).2.1
      have there : table = file.table := own.symm.trans there
      obtain rfl : holder = file :=
        Option.some.inj (registered.symm.trans (there ▸ barred.registered))
      exact absurd (UInt32.pos_iff_ne_zero.mpr barred.pages) none
  | steps before was steps =>
    have wanted : before.job? = some job := (steps.job?.resolve_left fun none => by
      cases none.symm.trans wants).symm.trans wants
    obtain ⟨stop, phase, rfl, early⟩ := barred.waits other call before job was wanted there
    have later := steady.next possible reads.1 few
    have free := later.not_holds (isRead_next possible reads reading) locked here wants
    obtain ⟨phase, same, early⟩ := steps.waits early free
    exact ⟨stop, phase, same, early⟩

theorem Barred.course {first : Workload} (barred : Barred owner file first)
    (steady : first.Steady start) (reading : (first.stage owner).isRead = true)
    (course : Course (Reads owner) first work) (few : work.registrations ≤ 2 ^ 32) :
    Barred owner file work ∧ file.numPages work.pool.disk = file.numPages first.pool.disk := by
  induction course with
  | start => exact ⟨barred, rfl⟩
  | @step work step course possible reads ih =>
    have few' := Nat.le_trans (work.registers_next step).le few
    cases step with
    | hook hook => exact reads.elim
    | act action =>
      have steady := steady.course course (fun _ _ => Reads.kind) few'
      obtain ⟨barred, same⟩ := ih few'
      obtain ⟨barred, same'⟩ := barred.next steady possible reads few (isRead_course course reading)
      exact ⟨barred, same'.trans same⟩

end Workload
end PagedTables
