import PagedTables.Proofs.Pool.Fresh
import PagedTables.Proofs.Workload.Ownership
import PagedTables.Proofs.Workload.Registrations
import PagedTables.Proofs.Workload.Reuse

/-! The cache is coherent with the files in every course of transactions and hooks: a page that is not
dirty is what its file has. -/

namespace PagedTables

def Task.job? : Task → Option Insertion
  | access current => current.purpose.job?
  | extend _ job => some job

def Insertion.Registered (pool : Pool) (job : Insertion) : Prop :=
  pool.tables[job.file.table]? = some job.file

def Progress.job? : Progress → Option Insertion
  | running task => task.job?
  | finished _ => none

def Progress.Registered (pool : Pool) : Progress → Prop
  | running task => ∀ job, task.job? = some job → job.Registered pool
  | finished _ => True

section Job

variable {start : Disk} {pool later : Pool} {owner : TransactionId} {task : Task} {call : Call}
  {progress : Progress} {result : Pool × Progress}

theorem Progress.job?_advance (cursor : Cursor) (toEnd : Bool) :
    (cursor.advance toEnd).job? = none := by
  unfold Cursor.advance
  split
  · rfl
  · rfl

theorem Progress.registered_of_none (none : progress.job? = none) : progress.Registered pool := by
  cases progress with
  | finished finish => exact trivial
  | running task =>
    intro job wants
    cases none.symm.trans wants

theorem Task.StepsTo.job? (steps : StepsTo pool task result) :
    result.2.job? = none ∨ result.2.job? = task.job? := by
  cases steps with
  | granted access locks further holds => exact .inr rfl
  | refused access locks further => exact .inr rfl
  | stopped access locks further stats finish stops => exact .inl rfl
  | pinned access phase later serves size resident present => exact .inr rfl
  | homeless access phase later serves size finish stops => exact .inl rfl
  | looked access stay phase cache visits => exact .inr rfl
  | guarded access stay phase cache visits => exact .inl rfl
  | appended worker job disk page appends => exact .inr rfl
  | unextended worker job failure => exact .inl rfl
  | idled => exact .inr rfl
  | used access stay phase cache rewrites heap shows progress leads =>
    obtain ⟨owner, page, purpose, phase⟩ := access
    cases leads with
    | ended _ finish closes => exact .inl rfl
    | remarked => exact .inl rfl
    | passed job stop more => exact .inr rfl
    | filled _ job wants => exact .inr wants.symm
    | visited cursor toEnd => exact .inl (Progress.job?_advance _ _)

theorem Task.StepsTo.registered (steps : StepsTo pool task result)
    (registered : ∀ job, task.job? = some job → job.Registered pool) :
    result.2.Registered pool := by
  have goes := steps.job?
  generalize result.2 = progress at goes ⊢
  cases progress with
  | finished finish => exact trivial
  | running later =>
    intro job wants
    rcases goes with none | same
    · cases none.symm.trans wants
    · exact registered job (same.symm.trans wants)

theorem Call.Begins.registered (sound : pool.Sound start) (begins : call.Begins pool owner progress) :
    progress.Registered pool := by
  have own : ∀ {table : TableId} {file : HeapFile} (tuple : Tuple),
      pool.tables[table]? = some file → ∀ job, some (⟨file, tuple, true⟩ : Insertion) = some job →
        job.Registered pool := by
    rintro table file tuple registered _ ⟨rfl⟩
    have same := (sound.proper table file registered).2.1
    show pool.tables[file.table]? = some file
    rw [same]
    exact registered
  cases begins with
  | failed failure => exact trivial
  | fetches page mode => exact Progress.registered_of_none rfl
  | scans table file registered => exact Progress.registered_of_none (Progress.job?_advance _ _)
  | resumes cursor => exact Progress.registered_of_none (Progress.job?_advance _ _)
  | places table tuple file registered some => exact own tuple registered
  | appends table tuple file registered none => exact own tuple registered
  | removes tuple record placed => exact Progress.registered_of_none rfl

theorem Pool.Fresh.stepsTo (fresh : pool.Fresh start) (steps : task.StepsTo pool result)
    (few : ∀ owner job, task = .extend owner job → job.file.HasNumber pool.disk)
    (registered : ∀ job, task.job? = some job → job.Registered pool) : result.1.Fresh start := by
  cases steps with
  | granted access locks further holds => exact fresh.extended further pool.stats
  | refused access locks further => exact fresh.extended further pool.stats
  | stopped access locks further stats finish stops => exact fresh.extended further stats
  | pinned access phase later serves size resident present =>
    exact fresh.serves serves (size fresh.fits)
  | homeless access phase later serves size finish stops =>
    exact fresh.serves serves (size fresh.fits)
  | looked access stay phase cache visits => exact fresh.visits visits
  | guarded access stay phase cache visits => exact fresh.visits visits
  | used access stay phase cache rewrites heap shows progress leads => exact fresh.rewrites rewrites
  | unextended worker job failure => exact fresh
  | idled => exact fresh
  | appended worker job disk page appended =>
    have file := registered job rfl
    have proper := (fresh.sound.proper _ _ file).1
    obtain ⟨appends, _⟩ := proper.appends (Nat.lt_of_lt_pred (few worker job rfl)) appended
    exact fresh.appends file appends

end Job

namespace Pool

theorem Fresh.settlePage {start : Disk} {pool : Pool} (fresh : pool.Fresh start) (commit : Bool)
    (page : PageId) : (pool.settlePage commit page).1.Fresh start := by
  cases commit with
  | true => exact fresh.flushPage page
  | false => exact fresh.discardPage page

end Pool

theorem Hook.fresh {start : Disk} {pool : Pool} (fresh : pool.Fresh start) (hook : Hook) :
    (hook.run pool).1.Fresh start :=
  hook.run_keeps (Pool.Fresh start) (fun _ page fresh => fresh.flushPage page)
    (fun _ page fresh => fresh.discardPage page) (fun _ owner page fresh => fresh.releasePage owner page)
    fresh

namespace Workload

/-- The cache is coherent, and tuples are on their way to tables that there are. -/
structure Current (start : Disk) (work : Workload) : Prop where
  numbered : work.pool.Numbered work.registrations
  fresh : work.pool.Fresh start
  registered : ∀ owner call task, work.stage owner = .working call task →
    ∀ job, task.job? = some job → job.Registered work.pool

variable {start : Disk} {work : Workload} {owner : TransactionId} {step : Step}

def Enrolled (work : Workload) : Prop :=
  ∀ owner call task, work.stage owner = .working call task →
    ∀ job, task.job? = some job → job.Registered work.pool

theorem Enrolled.stage_next (enrolled : work.Enrolled) {action : Action}
    (sound : work.pool.Sound start) (possible : work.Possible (.act action))
    (other : TransactionId) :
    (work.next (.act action)).stage other = work.stage other ∨
      ((work.next (.act action)).stage other).isWorking = false ∨
      ∃ call progress, (work.next (.act action)).stage other = Progress.stage call progress ∧
        progress.Registered work.pool := by
  by_cases mine : action.owner? = some other
  · cases action with
    | create name schema => cases mine
    | attach name schema => cases mine
    | drop owner guard => exact .inl rfl
    | call owner call =>
      obtain rfl := Option.some.inj mine
      have begins := call.begins_begin work.pool owner
      exact .inr (.inr ⟨call, _, (work.next_call owner call).2, begins.registered sound⟩)
    | advance owner | expire owner =>
      obtain rfl := Option.some.inj mine
      obtain ⟨call, task, result, here, steps, _, stage, _⟩ := exists_stepsTo possible rfl
      exact .inr (.inr ⟨call, _, stage, steps.registered (enrolled owner call task here)⟩)
    | finish owner commit =>
      obtain rfl := Option.some.inj mine
      exact .inr (.inl (by simp only [next, after, Function.update_self, Stage.isWorking]))
    | settle owner =>
      obtain rfl := Option.some.inj mine
      exact .inr (.inl (quiet_settle possible))
  · exact .inl (work.stage_next_of_ne mine)

theorem Enrolled.of_next (enrolled : work.Enrolled) {later : Workload}
    (tables : ∀ (table : TableId) (file : HeapFile), work.pool.tables[table]? = some file →
      later.pool.tables[table]? = some file)
    (stages : ∀ owner, later.stage owner = work.stage owner ∨ (later.stage owner).isWorking = false ∨
      ∃ call progress, later.stage owner = Progress.stage call progress ∧
        progress.Registered work.pool) : later.Enrolled := by
  refine fun owner call task here job wants => tables _ _ ?_
  rcases stages owner with same | quiet | ⟨call, progress, same, registered⟩
  · exact enrolled owner call task (same ▸ here) job wants
  · rw [here] at quiet
    cases quiet
  · cases progress with
    | finished finish => cases same.symm.trans here
    | running other =>
      obtain ⟨_, rfl⟩ := Stage.working.inj (same.symm.trans here)
      exact registered job wants

theorem Current.roomed (current : work.Current start) (filed : work.Filed step) :
    work.Roomed step := by
  unfold Roomed
  split
  · next owner =>
    intro file longer
    have bounded : work.pool.Bounded := filed
    unfold lengthened? at longer
    split at longer
    · next call worker job here =>
      cases longer
      exact bounded.few (current.registered owner call _ here job rfl)
    · cases longer
  · exact trivial

theorem next_keeps (kept : Pool → Prop) (numbered : work.pool.Numbered work.registrations)
    (sound : work.pool.Sound start) (possible : work.Possible step) (sited : work.Sited step)
    (few : (work.next step).registrations ≤ 2 ^ 32) (before : kept work.pool)
    (registers : ∀ later, work.pool.Registers later → kept later)
    (steps : ∀ owner call task result, work.stage owner = .working call task →
      task.StepsTo work.pool result →
      (∀ worker job, task = .extend worker job → step = .act (.advance owner)) → kept result.1)
    (visits : ∀ page cache, Cache.Visits page work.pool.cache cache →
      kept { work.pool with cache })
    (settles : ∀ commit page, kept (work.pool.settlePage commit page).1)
    (releases : ∀ owner, kept (work.pool.releaseAll owner))
    (hooks : ∀ hook : Hook, kept (hook.run work.pool).1) : kept (work.next step).pool := by
  -- A step does one of these things to the pool, or nothing.
  cases step with
  | hook hook => exact hooks hook
  | act action =>
    cases action with
    | create name schema =>
      exact registers _ (sound.registers_create (numbered.hasTableId few) name schema)
    | attach name schema =>
      exact registers _ (sound.registers_unregistered (numbered.hasTableId few) sited)
    | call owner call =>
      rw [(work.next_call owner call).1]
      exact before
    | advance owner | expire owner =>
      obtain ⟨call, task, result, here, goes, pool, _, longer⟩ := exists_stepsTo possible rfl
      rw [pool]
      exact steps owner call task result here goes fun worker job same =>
        congrArg Step.act (longer worker job same)
    | drop owner guard =>
      obtain ⟨cache, same, visited⟩ := work.pool.visits_drop guard
      have pool : (work.next (.act (.drop owner guard))).pool = { work.pool with cache } := same
      rw [pool]
      exact visits guard.page cache visited
    | finish owner commit => exact before
    | settle owner =>
      obtain ⟨commit, rest, here⟩ := exists_ending possible.1
      simp only [next, after, giveUp, here]
      split
      · cases rest with
        | nil => exact releases owner
        | cons page rest => exact settles commit page
      · exact before

theorem next_tables (numbered : work.pool.Numbered work.registrations)
    (sound : work.pool.Sound start) (possible : work.Possible step) (sited : work.Sited step)
    (few : (work.next step).registrations ≤ 2 ^ 32) {table : TableId} {file : HeapFile}
    (registered : work.pool.tables[table]? = some file) :
    (work.next step).pool.tables[table]? = some file := by
  have same : ∀ {later : Pool}, work.pool.SameTables later → later.tables[table]? = some file :=
    fun same => same.tables.symm ▸ registered
  exact next_keeps (fun later => later.tables[table]? = some file) numbered sound possible sited few
    registered (fun _ registers => registers.tables registered)
    (fun _ _ _ _ _ steps _ => same steps.sameTables) (fun _ _ _ => registered)
    (fun commit page => same (work.pool.sameTables_settlePage commit page)) (fun _ => registered)
    fun hook => same (hook.sameTables work.pool)

theorem Enrolled.next (enrolled : work.Enrolled) (numbered : work.pool.Numbered work.registrations)
    (sound : work.pool.Sound start) (possible : work.Possible step) (sited : work.Sited step)
    (few : (work.next step).registrations ≤ 2 ^ 32) : (work.next step).Enrolled := by
  refine enrolled.of_next (fun _ _ => next_tables numbered sound possible sited few) ?_
  cases step with
  | hook hook => exact fun _ => .inl rfl
  | act action => exact enrolled.stage_next sound possible

theorem Current.next (current : work.Current start) (possible : work.Possible step)
    (sited : work.Sited step) (few : (work.next step).registrations ≤ 2 ^ 32)
    (roomed : work.Roomed step) : (work.next step).Current start := by
  have enrolled : work.Enrolled := current.registered
  have numbered := current.numbered
  have fresh := current.fresh
  refine ⟨(work.registers_next step).numbered numbered, ?_,
    enrolled.next numbered fresh.sound possible sited few⟩
  refine next_keeps (fun later => later.Fresh start) numbered fresh.sound possible sited few fresh
    (fun _ => fresh.registers) (fun owner call task result here steps longer => ?_)
    (fun _ _ => fresh.visits) fresh.settlePage fresh.releaseAll fun hook => hook.fresh fresh
  refine fresh.stepsTo steps (fun worker job same => ?_) (enrolled owner call task here)
  rw [longer worker job same] at roomed
  exact roomed job.file (by simp [lengthened?, here, same])

theorem current_start {config : Config} {pool : Pool} (small : config.pageSize < 2 ^ 32)
    (h : Pool.start config start = .ok pool) : (Workload.start pool).Current start :=
  ⟨numbered_start h, Pool.fresh_start small h, fun _ _ _ here => (by cases here)⟩

theorem current_of_roomed {first : Workload} (current : first.Current start)
    (course : Course (fun work step => work.Sited step ∧ work.Roomed step) first work)
    (few : work.registrations ≤ 2 ^ 32) : work.Current start := by
  induction course with
  | start => exact current
  | @step work step course possible kind ih =>
    have current := ih (Nat.le_trans (work.registers_next step).le few)
    exact current.next possible kind.1 few kind.2

theorem current_of_course {first : Workload} (current : first.Current start)
    (course : Course Filed first work) (few : work.registrations ≤ 2 ^ 32) :
    work.Current start := by
  induction course with
  | start => exact current
  | @step work step course possible filed ih =>
    have current := ih (Nat.le_trans (work.registers_next step).le few)
    exact current.next possible filed.sited few (current.roomed filed)

/-- Whatever has been done to a pool, hooks included, its clean pages are those of its files; and a
page that may leave the cache is the same again for whoever fetches it when it has left. -/
theorem clean_readPage {config : Config} {start : Disk} {pool : Pool} {work : Workload}
    {page : PageId} {resident : Resident} (small : config.pageSize < 2 ^ 32)
    (made : Pool.start config start = .ok pool) (course : Course Filed (Workload.start pool) work)
    (few : work.registrations ≤ 2 ^ 32)
    (present : work.pool.cache.frames[page]? = some resident) :
    (resident.frame.page.dirtiedBy = none → work.pool.readPage page = .ok resident.frame.page) ∧
      (resident.frame.isEvictable = true → ∀ (cache : Cache),
        cache.frames = work.pool.cache.frames.erase page → ∀ (owner : TransactionId) (mode : LockMode),
          ∃ fetched stay later,
            Access.pin ⟨owner, page, .guard mode, .pin⟩ { work.pool with cache } =
              (fetched, .running (.access ⟨owner, page, .guard mode, .use stay⟩)) ∧
            Access.use ⟨owner, page, .guard mode, .use stay⟩ fetched stay =
              (later, .finished (.guarded ⟨page, stay, mode = .exclusive⟩)) ∧
            later.view ⟨page, stay, mode = .exclusive⟩ = some resident.frame.page) := by
  have fresh := (current_of_course (current_start small made) course few).fresh
  exact ⟨fresh.clean page resident present, fun may cache evicted owner mode =>
    fresh.evict_fetch present may evicted owner mode⟩

/-- A page that a running transaction has filled is written behind its back. It is clean from then on,
and can leave the cache. -/
theorem clean_readPage_flushed :
    let page : PageId := ⟨⟨0⟩, 0⟩
    let filled := ((.create "numbers" numbers :: puts ⟨1⟩ 7 7).map Step.act).foldl next
      (Workload.start smallPool)
    let work := filled.next (.hook (.flushPage page))
    ∃ resident cache fetched stay later, work.pool.cache.frames[page]? = some resident ∧
      work.pool.readPage page = .ok resident.frame.page ∧ work.pool.cache.evict = some cache ∧
      Access.pin ⟨⟨2⟩, page, .guard .exclusive, .pin⟩ { work.pool with cache } =
        (fetched, .running (.access ⟨⟨2⟩, page, .guard .exclusive, .use stay⟩)) ∧
      Access.use ⟨⟨2⟩, page, .guard .exclusive, .use stay⟩ fetched stay =
        (later, .finished (.guarded ⟨page, stay, true⟩)) ∧
      later.view ⟨page, stay, true⟩ = some resident.frame.page := by
  intro page filled work
  have made : Pool.start smallPool.config .blank = .ok smallPool := rfl
  have course : Course Filed (Workload.start smallPool) work :=
    .step (.hook (.flushPage page)) (.of_takes _ .start (by decide +kernel)) (by decide +kernel) trivial
  have idle : (work.pool.cache.frames[page]?.any fun resident =>
      resident.frame.isEvictable && resident.frame.page.dirtiedBy = none) = true := by
    decide +kernel
  obtain ⟨resident, present, may⟩ := (Option.any_eq_true _ _).mp idle
  simp only [Bool.and_eq_true, decide_eq_true_eq] at may
  obtain ⟨read, back⟩ := clean_readPage (by decide) made course (by decide +kernel) present
  have goes : (work.pool.cache.evict.any fun cache =>
      cache.frames = work.pool.cache.frames.erase page) = true := by decide +kernel
  obtain ⟨cache, evicted, frames⟩ := (Option.any_eq_true _ _).mp goes
  obtain ⟨fetched, stay, later, pinned, used, view⟩ :=
    back may.1 cache (of_decide_eq_true frames) ⟨2⟩ .exclusive
  exact ⟨resident, cache, fetched, stay, later, present, read may.2, evicted, pinned, used, view⟩

/-- A table has the id and the cached page of another one. That page is clean, and not the one in the
file. -/
theorem not_clean_readPage :
    ¬∀ {config : Config} {start : Disk} {pool : Pool} {work : Workload} {page : PageId}
      {resident : Resident}, config.pageSize < 2 ^ 32 → Pool.start config start = .ok pool →
      Course Filed (Workload.start pool) work → work.pool.cache.frames[page]? = some resident →
        resident.frame.page.dirtiedBy = none → work.pool.readPage page = .ok resident.frame.page := by
  intro reads
  let page : PageId := ⟨⟨0⟩, 0⟩
  let fills : List Action := .create "numbers" numbers :: filling
  let filled := (fills.map Step.act).foldl next (Workload.start archived)
  let work := (filled.passed (2 ^ 32 - 1)).next (.act (.attach "archive" numbers))
  have made : Pool.start archived.config archived.disk = .ok archived := rfl
  have course : Course Filed (Workload.start archived) filled :=
    .of_takes (fills.map Step.act) .start (by decide +kernel)
  have missing : filled.pool.disk.find "missing" = .error (.system SystemError.noSuchFile) := by
    decide +kernel
  have passed := course.passed missing numbers (fun _ => id) (2 ^ 32 - 1)
  have onward : Course Filed (Workload.start archived) work :=
    passed.step (.act (.attach "archive" numbers)) trivial (by decide +kernel)
  have differs : (work.pool.cache.frames[page]?.any fun resident =>
      resident.frame.page.dirtiedBy = none ∧
        (work.pool.readPage page).map (·.slots) ≠ .ok resident.frame.page.slots) = true := by
    decide +kernel
  obtain ⟨resident, present, differs⟩ := (Option.any_eq_true _ _).mp differs
  obtain ⟨clean, differs⟩ := of_decide_eq_true differs
  exact differs (congrArg (Except.map HeapPage.slots) (reads (by decide) made onward present clean))

end Workload
end PagedTables
