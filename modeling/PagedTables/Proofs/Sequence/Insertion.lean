import PagedTables.Proofs.Pool.Placement
import PagedTables.Proofs.Sequence.Alone
import PagedTables.Proofs.Workload.Reuse

/-! An insertion that is run while nothing else happens. Up to the step that puts the tuple in its place
nothing is changed, except that a blank page may be put behind full ones; from there on it cannot
fail. -/

namespace PagedTables

theorem Access.remarks_of_written {pool : Pool} (access : Access) {resident : Resident}
    {cache : Cache} {frame : Frame} (valid : pool.locks.table.Valid)
    (holds : pool.locks.table.Holds access.owner access.page .exclusive)
    (pinned : resident.frame.pins ≠ 0)
    (replaces : Cache.Replaces access.page ⟨resident.stay, frame⟩ pool.cache cache)
    (pins : frame.pins = resident.frame.pins - 1) (free : frame.latch = .shared 0)
    (named : frame.page.id = access.page) (dirty : frame.page.dirtiedBy = some access.owner) :
    Pool.Remarks { pool with cache } access.owner access.page
      (.ask access.owner access.page .mark) := by
  refine .marks .ask ⟨valid, holds, ⟨resident.stay, frame⟩, replaces.cached, named, dirty, free, ?_⟩
  show frame.pins + 1 ≠ 0
  rwa [pins, UInt32.sub_add_cancel]

namespace Insertion

variable {start : Disk} {before pool later : Pool} {owner : TransactionId} {job : Insertion}
  {number : UInt32} {purpose : Purpose} {disk : Disk} {progress : Progress} {phase : Phase}

/-- The page that a search for a free slot has got to: one of those that were there, or the one that
was put behind them. -/
inductive Looks (before : Pool) (job : Insertion) : UInt32 → Purpose → Disk → Prop
  | within (number : UInt32) (below : number < job.file.numPages before.disk) :
      Looks before job number (.place job (job.file.numPages before.disk)) before.disk
  | behind (disk : Disk) (lengthens : job.file.Lengthens before.disk disk) :
      Looks before job (job.file.numPages before.disk) (.claim job) disk

/-- The pages that a search has passed were full, and stay locked. -/
structure Passed (before pool : Pool) (owner : TransactionId) (job : Insertion) (number : UInt32) :
    Prop where
  filled : before.FilledTo job.file number
  locked : ∀ earlier < number,
    pool.locks.table.Holds owner ⟨job.file.table, earlier⟩ .exclusive

inductive Goes (before : Pool) (owner : TransactionId) (job : Insertion) (pool : Pool) :
    Progress → Prop
  | looks (number : UInt32) (purpose : Purpose) (disk : Disk)
      (looks : job.Looks before number purpose disk) (passed : job.Passed before pool owner number)
      (intact : ({ before with disk } : Pool).Intact pool) (phase : Phase)
      (ready : Access.Ready ⟨owner, ⟨job.file.table, number⟩, purpose, phase⟩ pool) :
      Goes before owner job pool
        (.running (.access ⟨owner, ⟨job.file.table, number⟩, purpose, phase⟩))
  | lengthens (passed : job.Passed before pool owner (job.file.numPages before.disk))
      (intact : before.Intact pool) : Goes before owner job pool (.running (.extend owner job))
  | fails (disk : Disk) (grown : before.Grown job.file disk)
      (intact : ({ before with disk } : Pool).Intact pool) (failure : Failure)
      (other : failure.isFull = false) : Goes before owner job pool (.failed failure)
  | remarks (page : PageId) (slot : Nat)
      (places : before.Places pool owner job.file job.tuple page slot) (progress : Progress)
      (remarks : pool.Remarks owner page progress) : Goes before owner job pool progress

theorem Passed.mono (passed : job.Passed before pool owner number)
    (further : pool.locks.table.Extends later.locks.table) : job.Passed before later owner number :=
  ⟨passed.filled, fun earlier below => further.holds (passed.locked earlier below)⟩

theorem Passed.next (passed : job.Passed before pool owner number)
    {stop : UInt32} (below : number < stop)
    (full : before.Full job.file ⟨job.file.table, number⟩)
    (holds : pool.locks.table.Holds owner ⟨job.file.table, number⟩ .exclusive) :
    job.Passed before pool owner (number + 1) := by
  have between : ∀ earlier < number + 1, earlier < number ∨ earlier = number := by
    intro earlier less
    have less := UInt32.lt_iff_toNat_lt.mp less
    rw [toNat_succ_of_lt below] at less
    rcases Nat.lt_or_eq_of_le (Nat.le_of_lt_succ less) with less | same
    · exact .inl (UInt32.lt_iff_toNat_lt.mpr less)
    · exact .inr (UInt32.toNat_inj.mp same)
  refine ⟨fun earlier less => ?_, fun earlier less => ?_⟩
  · rcases between earlier less with less | rfl
    · exact passed.filled earlier less
    · exact full
  · rcases between earlier less with less | rfl
    · exact passed.locked earlier less
    · exact holds

theorem Looks.writes (looks : job.Looks before number purpose disk) : purpose.isWrite = true := by
  cases looks <;> rfl

theorem Looks.job? (looks : job.Looks before number purpose disk) : purpose.job? = some job := by
  cases looks <;> rfl

theorem Looks.grown (looks : job.Looks before number purpose disk)
    (filled : before.FilledTo job.file number) : before.Grown job.file disk := by
  cases looks with
  | within number below => exact .same
  | behind disk lengthens => exact .longer filled disk lengthens

theorem Looks.extent (looks : job.Looks before number purpose disk) :
    number < job.file.numPages before.disk ∧ disk = before.disk ∨
      number = job.file.numPages before.disk ∧ job.file.Lengthens before.disk disk := by
  cases looks with
  | within number below => exact .inl ⟨below, rfl⟩
  | behind disk lengthens => exact .inr ⟨rfl, lengthens⟩

theorem Looks.act (looks : job.Looks before number purpose disk) (owner : TransactionId)
    (heap : HeapPage) :
    ∃ full, purpose.act owner heap = job.tryPage owner heap full := by
  cases looks with
  | within number below => exact ⟨_, rfl⟩
  | behind disk lengthens => exact ⟨_, rfl⟩

theorem Looks.still (looks : job.Looks before number purpose disk) {heap : HeapPage}
    (full : none ∉ heap.slots) : (purpose.act owner heap).1 = heap := by
  obtain ⟨next, same⟩ := looks.act owner heap
  rw [same, tryPage, if_pos (HeapPage.freeCount_eq_zero.mpr full)]

theorem Goes.tables (goes : job.Goes before owner pool progress) : pool.tables = before.tables := by
  cases goes with
  | looks number purpose disk looks passed intact phase ready => exact intact.tables
  | lengthens passed intact => exact intact.tables
  | fails disk grown intact failure other => exact intact.tables
  | remarks page slot places progress remarks => exact places.tables

theorem Goes.registered (goes : job.Goes before owner pool progress)
    (registered : job.Registered before) : progress.Registered pool := by
  have mine : job.Registered pool := by
    rw [Registered, goes.tables]
    exact registered
  cases goes with
  | fails disk grown intact failure other => exact trivial
  | looks number purpose disk looks passed intact phase ready =>
    intro other wants
    obtain rfl := Option.some.inj (looks.job?.symm.trans wants)
    exact mine
  | lengthens passed intact =>
    intro other wants
    obtain rfl := Option.some.inj wants
    exact mine
  | remarks page slot places progress remarks =>
    cases remarks with
    | marks phase sure => exact Progress.registered_of_none rfl
    | done => exact trivial

theorem Goes.fresh {task : Task} (goes : job.Goes before owner pool (.running task))
    (registered : job.Registered before)
    (few : before.FilledTo job.file (job.file.numPages before.disk) →
      job.file.HasNumber before.disk) (fresh : pool.Fresh start) {result : Pool × Progress}
    (steps : task.StepsTo pool result) : result.1.Fresh start := by
  refine fresh.stepsTo steps (fun worker other same => ?_) (goes.registered registered)
  cases goes with
  | looks number purpose disk looks passed intact phase ready => cases same
  | lengthens passed intact =>
    cases same
    rw [intact.disk]
    exact few passed.filled
  | remarks page slot places progress remarks =>
    cases remarks
    cases same

section Run

variable (fresh : before.Fresh start) (registered : job.Registered before)
include fresh registered

theorem Looks.logical_eq (looks : job.Looks before number purpose disk)
    (filled : before.FilledTo job.file number)
    (intact : ({ before with disk } : Pool).Intact pool) (fresh' : pool.Fresh start)
    {resident : Resident}
    (present : pool.cache.frames[(⟨job.file.table, number⟩ : PageId)]? = some resident) :
    before.logical job.file ⟨job.file.table, number⟩ = .ok resident.frame.page.slots := by
  have grown := looks.grown filled
  have found : before.tables[(⟨job.file.table, number⟩ : PageId).table]? = some job.file := registered
  have begun := fresh.grown registered grown
  have shown := fresh'.shown_cached present
  rw [intact.shown] at shown
  have listed := begun.logical_eq found
  rw [shown] at listed
  exact (grown.logical_eq fresh registered found).symm.trans listed

theorem slots_of_appended (lengthens : job.file.Lengthens before.disk disk)
    (intact : ({ before with disk } : Pool).Intact pool) (fresh' : pool.Fresh start)
    {resident : Resident}
    (present : pool.cache.frames[job.file.lastPage before.disk]? = some resident) :
    resident.frame.page.slots = List.replicate job.file.layout.numSlots none := by
  have blank := fresh.shown_lastPage registered lengthens.appends
  have shown := fresh'.shown_cached present
  rw [intact.shown, blank, Except.ok.injEq] at shown
  rw [← shown]
  rfl

theorem Looks.next (looks : job.Looks before number purpose disk)
    (passed : job.Passed before pool owner number)
    (intact : ({ before with disk } : Pool).Intact pool) (fresh' : pool.Fresh start)
    (holds : pool.locks.table.Holds owner ⟨job.file.table, number⟩ .exclusive) {resident : Resident}
    (present : pool.cache.frames[(⟨job.file.table, number⟩ : PageId)]? = some resident)
    (full : none ∉ resident.frame.page.slots)
    (named : resident.frame.page.id = ⟨job.file.table, number⟩) :
    job.Goes before owner pool (purpose.act owner resident.frame.page).2 := by
  have slots := looks.logical_eq fresh registered passed.filled intact fresh' present
  cases looks with
  | within number below =>
    have further := passed.next below ⟨_, slots, full⟩ holds
    simp only [Purpose.act, tryPage, HeapPage.freeCount_eq_zero.mpr full, if_true, named]
    split
    · next more => exact .looks _ _ _ (.within _ more) further intact .ask trivial
    · next last =>
      have same : number + 1 = job.file.numPages before.disk := by
        have counted := toNat_succ_of_lt below
        have below := UInt32.lt_iff_toNat_lt.mp below
        have last := mt UInt32.lt_iff_toNat_lt.mpr last
        exact UInt32.toNat_inj.mp (by omega)
      exact .lengthens (same ▸ further) intact
  | behind disk lengthens =>
    rw [slots_of_appended fresh registered lengthens intact fresh' present] at full
    have some := (fresh.sound.proper _ _ registered).1.layout.slots_pos
    exact absurd (List.mem_replicate.mpr ⟨Nat.ne_of_gt some, rfl⟩) full

theorem Looks.places (looks : job.Looks before number purpose disk)
    (passed : job.Passed before pool owner number)
    (intact : ({ before with disk } : Pool).Intact pool) (fresh' : pool.Fresh start)
    (holds : pool.locks.table.Holds owner ⟨job.file.table, number⟩ .exclusive) {resident : Resident}
    (present : pool.cache.frames[(⟨job.file.table, number⟩ : PageId)]? = some resident) {cache : Cache}
    {frame : Frame} (replaces : Cache.Replaces ⟨job.file.table, number⟩ ⟨resident.stay, frame⟩
      pool.cache cache) (fresh'' : ({ pool with cache } : Pool).Fresh start) {slot : Nat}
    (first : resident.frame.page.slots.findIdx? Option.isNone = some slot)
    (put : frame.page.slots = resident.frame.page.slots.set slot
      (some (job.tuple.setRecordId (some ⟨⟨job.file.table, number⟩, slot⟩))))
    (mark : frame.page.dirtiedBy = some owner) :
    before.Places { pool with cache } owner job.file job.tuple ⟨job.file.table, number⟩ slot := by
  have grown := looks.grown passed.filled
  refine
    { tables := intact.tables
      table := rfl
      filled := passed.filled
      put := ⟨_, _, looks.logical_eq fresh registered passed.filled intact fresh' present, first,
        replaces.cached, put, mark⟩
      locked := fun earlier below => ?_
      elsewhere := fun other holder found apart => ?_
      disk := ?_ }
  · rcases Nat.lt_or_eq_of_le (UInt32.le_iff_toNat_le.mp below) with less | same
    · exact passed.locked earlier (UInt32.lt_iff_toNat_lt.mpr less)
    · exact UInt32.toNat_inj.mp same ▸ holds
  · -- No other page was touched since the insertion began, but for the one that was appended.
    have shown : ({ pool with cache } : Pool).shown other = pool.shown other :=
      Pool.shown_congr (Pool.changed?_of_rested (congrArg _ (replaces.elsewhere apart))) rfl
    have begun := fresh.grown registered grown
    exact (begun.logical_congr fresh'' intact.tables found (shown.trans (intact.shown other))).trans
      (grown.logical_eq fresh registered found)
  · rw [show ({ pool with cache } : Pool).disk = disk from intact.disk]
    rcases looks.extent with ⟨below, same⟩ | ⟨rfl, lengthens⟩
    · exact .inl ⟨below, same⟩
    · refine .inr ⟨rfl, ?_, lengthens⟩
      rw [slots_of_appended fresh registered lengthens intact fresh' present] at first
      have some := (fresh.sound.proper _ _ registered).1.layout.slots_pos
      obtain ⟨count, same⟩ := Nat.exists_eq_succ_of_ne_zero (Nat.ne_of_gt some)
      rw [same, List.replicate_succ, List.findIdx?_cons] at first
      exact (Option.some.inj first).symm

theorem Looks.comes (remarked : job.remarked = true) (looks : job.Looks before number purpose disk)
    (passed : job.Passed before pool owner number)
    (intact : ({ before with disk } : Pool).Intact pool) (fresh' : pool.Fresh start)
    {result : Pool × Progress} (fresh'' : result.1.Fresh start)
    (comes : Access.Comes ⟨owner, ⟨job.file.table, number⟩, purpose, phase⟩ pool result) :
    job.Goes before owner result.1 result.2 := by
  have grown := looks.grown passed.filled
  cases comes with
  | goes phase later near ready =>
    exact .looks number purpose disk looks (passed.mono near.locks) (intact.trans near) phase ready
  | fails later near failure other =>
    exact .fails disk grown (intact.trans near) failure other
  | uses holds resident present pinned cache frame replaces made pins free =>
    obtain ⟨file, housed⟩ := fresh'.sound.housed _ resident present
    have made : frame.page = (purpose.act owner resident.frame.page).1 := made
    show job.Goes before owner { pool with cache } (purpose.act owner resident.frame.page).2
    -- A full page passes the search on; in any other the first free slot is taken unless the tuple
    -- does not suit the page.
    by_cases full : none ∉ resident.frame.page.slots
    · rw [looks.still full] at made
      have near := Pool.intact_replaces present replaces made
      have here : ({ pool with cache } : Pool).cache.frames[_]? = _ := replaces.cached
      rw [← made]
      exact looks.next fresh registered (passed.mono near.locks) (intact.trans near) fresh''
        holds here (made ▸ full) (made ▸ housed.id)
    · obtain ⟨next, same⟩ := looks.act owner resident.frame.page
      rw [same] at made ⊢
      have tries := job.tryPage_tries owner resident.frame.page next
      generalize job.tryPage owner resident.frame.page next = tried at tries made ⊢
      cases tries with
      | full none => exact absurd none full
      | refused some failure other =>
        exact .fails disk grown (intact.trans (Pool.intact_replaces present replaces made)) failure
          other
      | put slot first =>
        rw [housed.id] at made
        have dirty : frame.page.dirtiedBy = some owner := made ▸ rfl
        have places := looks.places fresh registered passed intact fresh' holds present replaces
          fresh'' first (made ▸ rfl) dirty
        refine .remarks _ slot places _ ?_
        rw [remarked, housed.id]
        exact Access.remarks_of_written ⟨owner, _, purpose, phase⟩ fresh'.sound.valid holds
          pinned replaces pins free (made ▸ rfl) dirty

variable (few : before.FilledTo job.file (job.file.numPages before.disk) →
  job.file.HasNumber before.disk)
include few

theorem Goes.step {task : Task} (remarked : job.remarked = true) (fresh' : pool.Fresh start)
    (goes : job.Goes before owner pool (.running task)) :
    job.Goes before owner (task.step pool).1 (task.step pool).2 := by
  have fresh'' := goes.fresh registered few fresh' (task.stepsTo_step pool)
  cases goes with
  | looks number purpose disk looks passed intact phase ready =>
    exact looks.comes fresh registered remarked passed intact fresh' fresh''
      (Access.comes_step looks.writes ready)
  | remarks page slot places progress remarks =>
    obtain ⟨_, intact, next⟩ := remarks.step
    exact .remarks page slot (places.intact intact fresh' fresh'') _ next
  | lengthens passed intact =>
    have grows : ∀ disk page, job.file.appendBlank pool.disk = .ok (disk, page) →
        job.Goes before owner { pool with disk } (.ask owner page (.claim job)) := by
      intro disk page made
      rw [intact.disk] at made
      have proper := (fresh.sound.proper _ _ registered).1
      obtain ⟨lengthens, rfl⟩ := proper.lengthens (few passed.filled) made
      have kept : job.Passed before { pool with disk } owner _ := passed.mono (.of_same rfl rfl)
      exact .looks _ _ disk (.behind disk lengthens) kept (intact.extended disk) .ask trivial
    simp only [Task.step, Pool.appendPage]
    cases made : job.file.appendBlank pool.disk with
    | ok result => exact grows result.1 result.2 made
    | error failure =>
      exact .fails before.disk .same intact failure (HeapFile.not_full_of_appendBlank made)

theorem Goes.expire {task : Task} (remarked : job.remarked = true) (fresh' : pool.Fresh start)
    (waiting : task.isWaiting = true) (goes : job.Goes before owner pool (.running task)) :
    job.Goes before owner (task.expire pool).1 (task.expire pool).2 := by
  have fresh'' := goes.fresh registered few fresh' (task.stepsTo_expired pool)
  cases goes with
  | looks number purpose disk looks passed intact phase ready =>
    exact looks.comes fresh registered remarked passed intact fresh' fresh''
      (Access.comes_expire looks.writes)
  | lengthens passed intact => cases waiting
  | remarks page slot places progress remarks =>
    cases remarks.step.1.symm.trans waiting

theorem Goes.run {progress : Progress} (remarked : job.remarked = true) (patient : Bool) (fuel : Nat)
    (fresh' : pool.Fresh start) (goes : job.Goes before owner pool progress) :
    (pool.runSteps patient fuel progress).1.Fresh start ∧ job.Goes before owner
      (pool.runSteps patient fuel progress).1 (pool.runSteps patient fuel progress).2 := by
  refine Pool.runSteps_keeps (fun pool progress => pool.Fresh start ∧
      job.Goes before owner pool progress) (fun pool task kept => ?_)
    (fun pool task waiting kept => ?_) patient fuel ⟨fresh', goes⟩
  · exact ⟨kept.2.fresh registered few kept.1 (task.stepsTo_step pool),
      kept.2.step fresh registered few remarked kept.1⟩
  · exact ⟨kept.2.fresh registered few kept.1 (task.stepsTo_expired pool),
      kept.2.expire fresh registered few remarked kept.1 waiting⟩

end Run

theorem Goes.lengthens_once (goes : job.Goes before owner pool progress) : pool.disk = before.disk ∨
    before.FilledTo job.file (job.file.numPages before.disk) ∧
      job.file.Lengthens before.disk pool.disk ∧
        ∀ worker other, progress ≠ .running (.extend worker other) := by
  cases goes with
  | lengthens passed intact => exact .inl intact.disk
  | looks number purpose disk looks passed intact phase ready =>
    rw [intact.disk]
    rcases looks.extent with ⟨_, same⟩ | ⟨rfl, lengthens⟩
    · exact .inl same
    · exact .inr ⟨passed.filled, lengthens, fun _ _ same => by cases same⟩
  | fails disk grown intact failure other =>
    rw [intact.disk]
    cases grown with
    | same => exact .inl rfl
    | longer filled disk lengthens => exact .inr ⟨filled, lengthens, fun _ _ same => by cases same⟩
  | remarks page slot places progress remarks =>
    rcases places.disk with ⟨_, same⟩ | ⟨rfl, _, lengthens⟩
    · exact .inl same
    · refine .inr ⟨places.filled, lengthens, fun _ _ same => ?_⟩
      cases remarks <;> cases same

theorem goes_insertion {table : TableId} {file : HeapFile}
    (registered : pool.tables[table]? = some file) (owner : TransactionId) (tuple : Tuple) :
    Goes pool owner ⟨file, tuple, true⟩ pool (pool.insertion owner table tuple) := by
  have passed : Passed pool pool owner ⟨file, tuple, true⟩ 0 :=
    ⟨fun _ below => absurd below UInt32.not_lt_zero, fun _ below => absurd below UInt32.not_lt_zero⟩
  unfold Pool.insertion
  rw [Pool.file_eq_ok.mpr registered]
  simp only [bind, Except.bind, HeapFile.insertion]
  cases checked : file.schema.validate tuple with
  | error failure =>
    refine .fails pool.disk .same (.refl pool) failure ?_
    unfold Schema.validate at checked
    split at checked <;> cases checked
    rfl
  | ok valid =>
    show Goes pool owner ⟨file, tuple, true⟩ pool (if 0 < file.numPages pool.disk then _ else _)
    split
    · next some =>
      have looks : Looks pool ⟨file, tuple, true⟩ 0 _ pool.disk := .within 0 some
      exact .looks 0 _ pool.disk looks passed (.refl pool) .ask trivial
    · next none =>
      have empty : file.numPages pool.disk = 0 := by
        rwa [UInt32.not_lt, UInt32.le_zero_iff] at none
      rw [← empty] at passed
      exact .lengthens passed (.refl pool)

theorem goes_run (fresh : pool.Fresh start) {table : TableId} {file : HeapFile}
    (registered : pool.tables[table]? = some file)
    (few : pool.FilledTo file (file.numPages pool.disk) → file.HasNumber pool.disk) (tuple : Tuple)
    {patient : Bool} {fuel : Nat}
    (ran : pool.runSteps patient fuel ((Call.insert table tuple).begin pool owner) =
      (later, progress)) :
    later.Fresh start ∧ Goes pool owner ⟨file, tuple, true⟩ later progress := by
  have own : Registered pool ⟨file, tuple, true⟩ := by
    show pool.tables[file.table]? = some file
    rwa [(fresh.sound.proper table file registered).2.1]
  have goes := (goes_insertion registered owner tuple).run fresh own few rfl patient fuel fresh
  have ran : pool.runSteps patient fuel (pool.insertion owner table tuple) = (later, progress) := ran
  rwa [ran] at goes

end Insertion

theorem Pool.insertion_of_unknown {pool : Pool} {table : TableId} {owner : TransactionId}
    {tuple : Tuple} (unknown : pool.tables[table]? = none) :
    pool.insertion owner table tuple = .failed (.error (.tableNotFound table)) := by
  simp only [insertion, Pool.file, unknown]
  rfl

theorem Pool.Places.free {before later : Pool} {owner : TransactionId} {file : HeapFile}
    {tuple : Tuple} {page : PageId} {slot : Nat}
    (places : before.Places later owner file tuple page slot) : ¬before.Full file page := by
  rintro ⟨slots, shown, used⟩
  obtain ⟨_, _, shown', first, _⟩ := places.put
  obtain rfl := Except.ok.inj (shown.symm.trans shown')
  obtain ⟨inside, free, _⟩ := List.findIdx?_eq_some_iff_getElem.mp first
  exact used (Option.isNone_iff_eq_none.mp free ▸ List.getElem_mem inside)

theorem Pool.Places.lastPage_iff {before later : Pool} {owner : TransactionId} {file : HeapFile}
    {tuple : Tuple} {page : PageId} {slot : Nat}
    (places : before.Places later owner file tuple page slot) :
    page = file.lastPage before.disk ↔ before.FilledTo file (file.numPages before.disk) := by
  constructor
  · rintro rfl
    exact places.filled
  · intro filled
    rcases places.disk with ⟨below, _⟩ | ⟨same, _⟩
    · have full := filled page.number below
      rw [← places.table] at full
      exact absurd full places.free
    · exact same

namespace Workload

/-- A tuple that was inserted while nothing else happened is where it belongs: in the first slot that
its transaction saw free, or, exactly when there was none, in the first one of a page that was put
behind the others. -/
theorem insert_places {config : Config} {start : Disk} {first later : Pool} {work : Workload}
    (small : config.pageSize < 2 ^ 32) (made : Pool.start config start = .ok first)
    (course : Course (fun work step => work.Sited step ∧ work.Roomed step) (Workload.start first) work)
    (few : work.registrations ≤ 2 ^ 32) (owner : TransactionId) (table : TableId) (tuple : Tuple)
    (room : ∀ file, work.pool.tables[table]? = some file → file.HasNumber work.pool.disk)
    {patient : Bool} {fuel : Nat} {progress : Progress}
    (ran : work.pool.runSteps patient fuel ((Call.insert table tuple).begin work.pool owner) =
      (later, progress)) :
    (∀ worker job, progress = .running (.extend worker job) → later.disk = work.pool.disk) ∧
      ∀ pages, progress = .finished (.modified pages) → ∃ file page slot,
        work.pool.tables[table]? = some file ∧ pages = [page] ∧
          work.pool.Places later owner file tuple page slot ∧
          (page = file.lastPage work.pool.disk ↔
            work.pool.FilledTo file (file.numPages work.pool.disk)) := by
  have fresh := (current_of_roomed (current_start small made) course few).fresh
  cases registered : work.pool.tables[table]? with
  | none =>
    rw [Call.begin, Pool.insertion_of_unknown registered, Progress.failed,
      Pool.runSteps_finished] at ran
    cases ran
    exact ⟨fun _ _ same => (by cases same), fun _ same => (by cases same)⟩
  | some file =>
    obtain ⟨_, goes⟩ := Insertion.goes_run fresh registered (fun _ => room file registered) tuple ran
    refine ⟨?_, ?_⟩
    · rintro worker job rfl
      exact goes.lengthens_once.elim id fun longer => absurd rfl (longer.2.2 worker job)
    · rintro pages rfl
      cases goes with
      | remarks page slot places progress remarks =>
        cases remarks
        exact ⟨file, page, slot, rfl, rfl, places, places.lastPage_iff⟩

/-- One transaction has filled the only page and has ended. The tuple of the next one goes behind it. -/
theorem insert_places_behind :
    let fills := .create "numbers" numbers :: puts ⟨1⟩ 7 7 ++ puts ⟨1⟩ 8 6 ++ puts ⟨1⟩ 9 6 ++
      [Action.finish ⟨1⟩ true, Action.settle ⟨1⟩, Action.settle ⟨1⟩]
    let work := (fills.map Step.act).foldl next (Workload.start smallPool)
    let tuple : Tuple := .ofFields [.int 4]
    ∃ later file slot,
      work.pool.runSteps false 20 ((Call.insert ⟨0⟩ tuple).begin work.pool ⟨2⟩) =
        (later, .finished (.modified [⟨⟨0⟩, 1⟩])) ∧
      work.pool.Places later ⟨2⟩ file tuple ⟨⟨0⟩, 1⟩ slot ∧
      work.pool.FilledTo file (file.numPages work.pool.disk) := by
  intro fills work tuple
  have made : Pool.start smallPool.config .blank = .ok smallPool := rfl
  have course : Course (fun work step => work.Sited step ∧ work.Roomed step)
      (Workload.start smallPool) work := .of_takes _ .start (by decide +kernel)
  have bounded : work.pool.Bounded := by decide +kernel
  have goes : (work.pool.runSteps false 20 ((Call.insert ⟨0⟩ tuple).begin work.pool ⟨2⟩)).2 =
      .finished (.modified [⟨⟨0⟩, 1⟩]) := by decide +kernel
  have single : (work.pool.tables[(⟨0⟩ : TableId)]?.any fun file =>
      file.lastPage work.pool.disk = ⟨⟨0⟩, 1⟩) = true := by decide +kernel
  generalize ran : work.pool.runSteps false 20 ((Call.insert ⟨0⟩ tuple).begin work.pool ⟨2⟩) = result
    at goes
  obtain ⟨later, progress⟩ := result
  obtain rfl : progress = .finished (.modified [⟨⟨0⟩, 1⟩]) := goes
  obtain ⟨_, placed⟩ := insert_places (by decide) made course (by decide +kernel) ⟨2⟩ ⟨0⟩ tuple
    (fun file registered => bounded.few registered) ran
  obtain ⟨file, page, slot, registered, same, places, last⟩ := placed _ rfl
  obtain rfl := List.singleton_inj.mp same
  rw [registered, Option.any_some, decide_eq_true_eq] at single
  exact ⟨later, file, slot, rfl, places, last.mp single.symm⟩

/-- A table without pages has the id and the full page of another one. A tuple goes on the second page
that is put into its file, not on the first. -/
theorem not_insert_places :
    ¬∀ {config : Config} {start : Disk} {first later : Pool} {work : Workload},
      config.pageSize < 2 ^ 32 → Pool.start config start = .ok first →
      Course (fun work step => work.Sited step ∧ work.Roomed step) (Workload.start first) work →
      ∀ (owner : TransactionId) (table : TableId) (tuple : Tuple),
        (∀ file, work.pool.tables[table]? = some file → file.HasNumber work.pool.disk) →
        ∀ {patient : Bool} {fuel : Nat} {pages : List PageId},
          work.pool.runSteps patient fuel ((Call.insert table tuple).begin work.pool owner) =
              (later, .finished (.modified pages)) → ∃ file page,
            work.pool.tables[table]? = some file ∧ pages = [page] ∧
              (page = file.lastPage work.pool.disk ↔
                work.pool.FilledTo file (file.numPages work.pool.disk)) := by
  intro places
  let pool : Pool := { smallPool with config := { pageSize := 16, poolPages := 2 } }
  let fills : List Action :=
    .create "numbers" numbers :: puts ⟨1⟩ 7 7 ++ puts ⟨1⟩ 8 6 ++ puts ⟨1⟩ 9 6
  let filled := (fills.map Step.act).foldl next (Workload.start pool)
  let work := (filled.passed (2 ^ 32 - 1)).next (.act (.create "letters" numbers))
  let ran := work.pool.runSteps false 20
    ((Call.insert ⟨0⟩ (.ofFields [.int 4])).begin work.pool ⟨1⟩)
  have made : Pool.start pool.config .blank = .ok pool := rfl
  have course : Course (fun work step => work.Sited step ∧ work.Roomed step)
      (Workload.start pool) filled := .of_takes (fills.map Step.act) .start (by decide +kernel)
  have missing : filled.pool.disk.find "missing" = .error (.system SystemError.noSuchFile) := by
    decide +kernel
  have passed := course.passed missing numbers (fun _ sited => ⟨sited, trivial⟩) (2 ^ 32 - 1)
  have onward : Course (fun work step => work.Sited step ∧ work.Roomed step)
      (Workload.start pool) work :=
    passed.step (.act (.create "letters" numbers)) trivial ⟨trivial, trivial⟩
  have bounded : work.pool.Bounded := by decide +kernel
  have goes : ran.2 = .finished (.modified [⟨⟨0⟩, 1⟩]) := by decide +kernel
  have none : (work.pool.tables[(⟨0⟩ : TableId)]?.all fun file =>
      file.numPages work.pool.disk = 0 ∧ file.lastPage work.pool.disk = ⟨⟨0⟩, 0⟩) = true := by
    decide +kernel
  have ended : ran = (ran.1, .finished (.modified [⟨⟨0⟩, 1⟩])) := Prod.ext rfl goes
  obtain ⟨file, page, registered, same, last⟩ := places (by decide) made onward ⟨1⟩ ⟨0⟩
    (.ofFields [.int 4]) (fun file registered => bounded.few registered) ended
  rw [registered] at none
  obtain ⟨empty, first⟩ := of_decide_eq_true none
  obtain rfl := List.singleton_inj.mp same
  rw [empty, first] at last
  exact absurd (last.mpr fun number below => absurd below UInt32.not_lt_zero) (by decide)

end Workload
end PagedTables
