import PagedTables.Proofs.Pool.Stable
import PagedTables.Proofs.Workload.Freshness

/-! A transaction that only reads keeps the locks that it has, and the pages under them stay as they are
shown to it, while others work and end. -/

namespace PagedTables

def Call.isRead : Call → Bool
  | fetch _ _ | scan _ | resume _ => true
  | insert _ _ | delete _ => false

def Action.isRead : Action → Bool
  | call _ asked => asked.isRead
  | create _ _ | attach _ _ | advance _ | expire _ | drop _ _ => true
  | finish _ _ | settle _ => false

def Task.isRead : Task → Bool
  | access current => !current.purpose.isWrite
  | extend _ _ => false

def Progress.isRead : Progress → Bool
  | running task => task.isRead
  | finished _ => true

def Stage.isRead : Stage → Bool
  | idle => true
  | working _ task => task.isRead
  | ending _ _ => false

/-- What a step leaves to a transaction that reads: its locks, and the pages under them. -/
structure Pool.Keeps (owner : TransactionId) (pool later : Pool) : Prop where
  holds : ∀ (page : PageId) (mode : LockMode), pool.locks.table.Holds owner page mode →
    later.locks.table.Holds owner page mode
  tables : ∀ (table : TableId) (file : HeapFile), pool.tables[table]? = some file →
    later.tables[table]? = some file
  count : ∀ (table : TableId) (file : HeapFile), pool.tables[table]? = some file →
    file.numPages pool.disk ≤ file.numPages later.disk
  shown : ∀ (page : PageId) (file : HeapFile), pool.tables[page.table]? = some file →
    page.number < file.numPages pool.disk → pool.locks.table.Holds owner page .shared →
      later.shown page = pool.shown page

theorem Pool.Keeps.refl (owner : TransactionId) (pool : Pool) : pool.Keeps owner pool :=
  ⟨fun _ _ => id, fun _ _ => id, fun _ _ _ => UInt32.le_refl _, fun _ _ _ _ _ => rfl⟩

theorem Pool.Keeps.trans {owner : TransactionId} {pool later last : Pool}
    (keeps : pool.Keeps owner later) (keeps' : later.Keeps owner last) : pool.Keeps owner last where
  holds page mode holds := keeps'.holds page mode (keeps.holds page mode holds)
  tables table file registered := keeps'.tables table file (keeps.tables table file registered)
  count table file registered := UInt32.le_trans (keeps.count table file registered)
    (keeps'.count table file (keeps.tables table file registered))
  shown page file registered inside holds :=
    have inside' := UInt32.lt_of_lt_of_le inside (keeps.count page.table file registered)
    (keeps'.shown page file (keeps.tables _ _ registered) inside' (keeps.holds _ _ holds)).trans
      (keeps.shown page file registered inside holds)

theorem Progress.isRead_stage (call : Call) (progress : Progress) :
    (progress.stage call).isRead = progress.isRead := by
  cases progress <;> rfl

section Task

variable {start : Disk} {owner : TransactionId} {pool later : Pool} {task : Task}
  {result : Pool × Progress} {call : Call} {progress : Progress}

theorem Progress.isRead_advance (cursor : Cursor) (toEnd : Bool) :
    (cursor.advance toEnd).isRead = true := by
  unfold Cursor.advance
  split
  · rfl
  · rfl

theorem Call.Begins.isRead (begins : call.Begins pool owner progress) (reads : call.isRead = true) :
    progress.isRead = true := by
  cases begins with
  | failed failure => rfl
  | fetches page mode => rfl
  | scans table file registered => exact Progress.isRead_advance _ _
  | resumes cursor => exact Progress.isRead_advance _ _
  | places table tuple file registered some => cases reads
  | appends table tuple file registered none => cases reads
  | removes tuple record placed => cases reads

theorem Purpose.Leads.isRead {heap : HeapPage} {purpose : Purpose}
    (leads : purpose.Leads owner heap progress) (reads : purpose.isWrite = false) :
    progress.isRead = true := by
  cases leads with
  | ended _ finish closes => rfl
  | remarked _ writes => cases reads.symm.trans writes
  | passed job stop more => cases reads
  | visited cursor toEnd => exact Progress.isRead_advance _ _
  | filled _ job wants =>
    cases purpose with
    | place job stop => cases reads
    | claim job => cases reads
    | lock mode => cases wants
    | guard mode => cases wants
    | remove tuple remarked => cases wants
    | mark => cases wants
    | visit cursor toEnd => cases wants

theorem Access.reads_of_isRead {access : Access} (reads : (Task.access access).isRead = true) :
    access.purpose.isWrite = false := by simpa [Task.isRead] using reads

theorem Task.StepsTo.isRead (steps : StepsTo pool task result) (reads : task.isRead = true) :
    result.2.isRead = true := by
  cases steps with
  | granted access locks further holds => exact reads
  | refused access locks further => exact reads
  | stopped access locks further stats finish stops => rfl
  | pinned access phase later serves size resident present => exact reads
  | homeless access phase later serves size finish stops => rfl
  | looked access stay phase cache visits => exact reads
  | guarded access stay phase cache visits => rfl
  | used access stay phase cache rewrites heap shows progress leads =>
    exact leads.isRead (Access.reads_of_isRead reads)
  | appended worker job disk page appends => cases reads
  | unextended worker job failure => cases reads
  | idled => exact reads

theorem Task.StepsTo.reads (steps : StepsTo pool task result) (reads : task.isRead = true) :
    (∃ page, Pool.Serves page pool result.1) ∨ ∃ locks stats, result.1 = { pool with locks, stats } ∧
      pool.locks.table.Extends locks.table := by
  have still : ∃ locks stats, pool = { pool with locks, stats } ∧
      pool.locks.table.Extends locks.table := ⟨pool.locks, pool.stats, rfl, .of_same rfl rfl⟩
  cases steps with
  | granted access locks further holds => exact .inr ⟨locks, pool.stats, rfl, further⟩
  | refused access locks further => exact .inr ⟨locks, pool.stats, rfl, further⟩
  | stopped access locks further stats finish stops => exact .inr ⟨locks, stats, rfl, further⟩
  | pinned access phase later serves size resident present => exact .inl ⟨_, serves⟩
  | homeless access phase later serves size finish stops => exact .inl ⟨_, serves⟩
  | looked access stay phase cache visits => exact .inl ⟨_, .of_visits visits pool.stats⟩
  | guarded access stay phase cache visits => exact .inl ⟨_, .of_visits visits pool.stats⟩
  | used access stay phase cache rewrites heap shows progress leads =>
    have visits := rewrites.visits fun heap =>
      Purpose.act_of_read (Access.reads_of_isRead reads) access.owner heap
    exact .inl ⟨_, .of_visits visits pool.stats⟩
  | appended worker job disk page appends => cases reads
  | unextended worker job failure => exact .inr still
  | idled => exact .inr still

theorem Pool.Serves.keeps {page : PageId} (serves : Serves page pool later)
    (owner : TransactionId) : pool.Keeps owner later where
  holds _ _ holds := serves.locks.symm ▸ holds
  tables _ _ registered := serves.tables.symm ▸ registered
  count _ _ _ := serves.disk.symm ▸ UInt32.le_refl _
  shown page _ _ _ _ := (serves.alike.shown page).symm

theorem Pool.keeps_relocked {locks : LockManager} (further : pool.locks.table.Extends locks.table)
    (stats : Statistics) (owner : TransactionId) : pool.Keeps owner { pool with locks, stats } :=
  ⟨fun _ _ => further.holds, fun _ _ => id, fun _ _ _ => UInt32.le_refl _, fun _ _ _ _ _ => rfl⟩

theorem Task.StepsTo.keeps (steps : StepsTo pool task result) (reads : task.isRead = true)
    (owner : TransactionId) : pool.Keeps owner result.1 := by
  rcases steps.reads reads with ⟨page, serves⟩ | ⟨locks, stats, same, further⟩
  · exact serves.keeps owner
  · exact same ▸ Pool.keeps_relocked further stats owner

end Task

namespace Pool

variable {start : Disk} {owner actor : TransactionId} {pool later : Pool} {page : PageId}
  {file : HeapFile}

theorem Registers.changed?_eq (h : Registers pool later) (page : PageId) :
    later.changed? page = pool.changed? page := by
  cases h <;> rfl

theorem Registers.numPages_eq (h : Registers pool later) (file : HeapFile) :
    file.numPages later.disk = file.numPages pool.disk :=
  HeapFile.numPages_congr (h.contents file.path)

theorem Registers.keeps (h : Registers pool later) (owner : TransactionId) :
    pool.Keeps owner later where
  holds _ _ holds := by cases h <;> exact holds
  tables _ _ registered := h.tables registered
  count _ _ _ := UInt32.le_of_eq (by rw [h.numPages_eq])
  shown page _ registered _ _ :=
    shown_congr (h.changed?_eq page) (h.readPage_eq registered)

theorem Deed.tables (deed : Deed pool owner later) : later.tables = pool.tables := by
  cases deed with
  | served page later serves => exact serves.tables
  | relocked locks further stats => rfl
  | used access stay holds cache rewrites => rfl
  | flushed page holds => exact (pool.sameTables_flushPage page).tables
  | discarded page holds => exact (pool.sameTables_discardPage page).tables
  | released saved => rfl

theorem Deed.numPages_eq (fresh : pool.Fresh start) (deed : Deed pool owner later) {table : TableId}
    (registered : pool.tables[table]? = some file) :
    file.numPages later.disk = file.numPages pool.disk := by
  cases deed with
  | served page later serves => rw [serves.disk]
  | relocked locks further stats => rfl
  | used access stay holds cache rewrites => rfl
  | released saved => rfl
  | discarded page holds =>
    obtain ⟨cache, stats, same, _⟩ := pool.discardPage_changed page
    rw [same]
  | flushed page holds =>
    have flushes := pool.flushPage_flushes page
    generalize pool.flushPage page = result at flushes ⊢
    cases flushes with
    | absent absent => rfl
    | clean resident present clean => rfl
    | failed failure => rfl
    | written resident present writer dirty holder found disk writes cache replaces stats =>
      obtain ⟨_, stored, _⟩ := fresh.flushes present found writes replaces stats
      by_cases same : file.path = holder.path
      · have tables := fresh.sound.apart _ _ _ _ registered found same
        subst tables
        obtain rfl : file = holder := Option.some.inj (registered.symm.trans found)
        rw [HeapFile.numPages, HeapFile.numPages, stored.length]
      · exact HeapFile.numPages_congr (stored.elsewhere file.path same)

theorem Deed.keeps (fresh : pool.Fresh start) (owned : pool.Owned) (deed : Deed pool actor later)
    (apart : owner ≠ actor) : pool.Keeps owner later where
  holds := (deed.spares owned apart).holds
  tables _ _ registered := deed.tables.symm ▸ registered
  count _ _ registered := UInt32.le_of_eq (deed.numPages_eq fresh registered).symm
  shown _ _ _ _ holds := deed.shown_eq fresh owned holds apart

theorem Fresh.numPages_eq (fresh : pool.Fresh start) {holder : HeapFile} {disk : Disk}
    {table other : TableId} (registered : pool.tables[table]? = some file)
    (appends : file.Appends pool.disk disk) (found : pool.tables[other]? = some holder)
    (apart : other ≠ table) : holder.numPages disk = holder.numPages pool.disk :=
  HeapFile.numPages_congr <| appends.elsewhere holder.path fun same =>
    apart (fresh.sound.apart _ _ _ _ found registered same)

theorem Fresh.keeps_appends (fresh : pool.Fresh start) {disk : Disk} {table : TableId}
    (registered : pool.tables[table]? = some file) (appends : file.Appends pool.disk disk)
    (more : file.numPages pool.disk ≤ file.numPages disk) (owner : TransactionId) :
    pool.Keeps owner { pool with disk } where
  holds _ _ holds := holds
  tables _ _ found := found
  count other holder found := by
    by_cases same : other = table
    · subst same
      obtain rfl : holder = file := Option.some.inj (found.symm.trans registered)
      exact more
    · exact UInt32.le_of_eq (fresh.numPages_eq registered appends found same).symm
  shown _ _ found inside _ :=
    shown_congr rfl (fresh.readPage_appends registered appends found (HeapFile.covers_of_lt inside))

end Pool

namespace Workload

/-- The steps while a transaction only reads, and nobody uses a hook. -/
def Reads (owner : TransactionId) (work : Workload) : Step → Prop
  | .act action => work.Filed (.act action) ∧ (action.owner? = some owner → action.isRead = true)
  | .hook _ => False

instance (owner : TransactionId) (work : Workload) : (step : Step) → Decidable (work.Reads owner step)
  | .act _ => inferInstanceAs (Decidable (_ ∧ (_ → _)))
  | .hook _ => inferInstanceAs (Decidable False)

structure Steady (start : Disk) (work : Workload) : Prop where
  orderly : work.Orderly
  current : work.Current start
  labelled : work.pool.Labelled

variable {start : Disk} {work : Workload} {action : Action} {owner : TransactionId}

theorem Filing.locks {later : Pool} (filing : work.Filing action later) :
    later.locks = work.pool.locks := by
  obtain ⟨_, _, _, same, _⟩ := filing.cases
  rw [same]

theorem Steady.next_of_roomed (steady : work.Steady start) (possible : work.Possible (.act action))
    (sited : work.Sited (.act action)) (few : (work.next (.act action)).registrations ≤ 2 ^ 32)
    (roomed : work.Roomed (.act action)) : (work.next (.act action)).Steady start := by
  refine ⟨steady.orderly.next possible, steady.current.next possible sited few roomed, ?_⟩
  rcases steady.orderly.next_cases possible with filing | ⟨actor, acts, deed⟩
  · rw [Pool.Labelled, filing.cache]
    exact steady.labelled
  · exact deed.labelled steady.current.fresh steady.orderly.owned steady.labelled

theorem Steady.next (steady : work.Steady start) (possible : work.Possible (.act action))
    (filed : work.Filed (.act action)) (few : (work.next (.act action)).registrations ≤ 2 ^ 32) :
    (work.next (.act action)).Steady start :=
  steady.next_of_roomed possible filed.sited few (steady.current.roomed filed)

theorem steady_start {config : Config} {pool : Pool} (small : config.pageSize < 2 ^ 32)
    (made : Pool.start config start = .ok pool) : (Workload.start pool).Steady start := by
  refine ⟨orderly_start made, current_start small made, fun gone member => ?_⟩
  obtain rfl := Pool.start_eq made
  cases member

theorem Steady.course {allowed : Workload → Step → Prop} {first : Workload}
    (steady : first.Steady start) (course : Course allowed first work)
    (kinds : ∀ work step, allowed work step → Unhooked step ∧ work.Filed step)
    (few : work.registrations ≤ 2 ^ 32) : work.Steady start := by
  induction course with
  | start => exact steady
  | @step work step course possible kind ih =>
    have steady := ih (Nat.le_trans (work.registers_next step).le few)
    obtain ⟨unhooked, filed⟩ := kinds _ _ kind
    cases step with
    | hook hook => exact unhooked.elim
    | act action => exact steady.next possible filed few

theorem Reads.kind {step : Step} (reads : work.Reads owner step) :
    Unhooked step ∧ work.Filed step := by
  cases step with
  | hook hook => exact reads.elim
  | act action => exact ⟨trivial, reads.1⟩

theorem Steady.filing_cases (steady : work.Steady start) {later : Pool}
    (filing : work.Filing action later) (filed : work.Filed (.act action))
    (few : (work.next (.act action)).registrations ≤ 2 ^ 32) :
    work.pool.Registers later ∨ ∃ actor call job disk,
      work.stage actor = .working call (.extend actor job) ∧
      work.pool.tables[job.file.table]? = some job.file ∧ job.file.Appends work.pool.disk disk ∧
      job.file.numPages work.pool.disk ≤ job.file.numPages disk ∧
      later = { work.pool with disk } := by
  have sound := steady.current.fresh.sound
  cases filing with
  | created name schema =>
    exact .inl (sound.registers_create (steady.current.numbered.hasTableId few) name schema)
  | opened name schema =>
    exact .inl (sound.registers_unregistered (steady.current.numbered.hasTableId few) filed)
  | appended actor call job here disk page appended =>
    have registered := steady.current.registered actor call _ here job rfl
    have proper := (sound.proper _ _ registered).1
    have short := Pool.Bounded.few filed registered
    have more := HeapFile.numPages_appendBlank proper.pageSize_pos short appended
    exact .inr ⟨actor, call, job, disk, here, registered,
      (proper.appends (Nat.lt_of_lt_pred short) appended).1,
      UInt32.le_iff_toNat_le.mpr (more ▸ Nat.le_succ _), rfl⟩

theorem Steady.filing (steady : work.Steady start) {later : Pool}
    (filing : work.Filing action later) (filed : work.Filed (.act action))
    (few : (work.next (.act action)).registrations ≤ 2 ^ 32) : work.pool.Keeps owner later := by
  rcases steady.filing_cases filing filed few with
    registers | ⟨actor, call, job, disk, _, registered, appends, more, rfl⟩
  · exact registers.keeps owner
  · exact steady.current.fresh.keeps_appends registered appends more owner

theorem Steady.keeps (steady : work.Steady start) (possible : work.Possible (.act action))
    (reads : work.Reads owner (.act action)) (few : (work.next (.act action)).registrations ≤ 2 ^ 32)
    (reading : (work.stage owner).isRead = true) :
    work.pool.Keeps owner (work.next (.act action)).pool := by
  obtain ⟨filed, mine⟩ := reads
  by_cases own : action.owner? = some owner
  · have still : work.pool.Keeps owner work.pool :=
      Pool.keeps_relocked (.of_same rfl rfl) work.pool.stats owner
    have read := mine own
    cases action with
    | create name schema => cases own
    | attach name schema => cases own
    | finish actor commit => cases read
    | settle actor => cases read
    | call actor call => exact (work.next_call actor call).1 ▸ .refl owner work.pool
    | drop actor guard =>
      obtain ⟨cache, same, visits⟩ := work.pool.visits_drop guard
      have same : (work.next (.act (.drop actor guard))).pool = { work.pool with cache } := same
      exact same ▸ (Pool.Serves.of_visits visits work.pool.stats).keeps owner
    | advance actor | expire actor =>
      obtain rfl := Option.some.inj own
      obtain ⟨call, task, result, here, steps, pool, _, _⟩ := exists_stepsTo possible rfl
      rw [here] at reading
      exact pool ▸ steps.keeps reading actor
  · rcases steady.orderly.next_cases possible with filing | ⟨actor, acts, deed⟩
    · exact steady.filing filing filed few
    · refine deed.keeps steady.current.fresh steady.orderly.owned ?_
      rintro rfl
      exact own acts

theorem isRead_next (possible : work.Possible (.act action))
    (reads : work.Reads owner (.act action)) (reading : (work.stage owner).isRead = true) :
    ((work.next (.act action)).stage owner).isRead = true := by
  by_cases own : action.owner? = some owner
  · have read := reads.2 own
    cases action with
    | create name schema => cases own
    | attach name schema => cases own
    | finish actor commit => cases read
    | settle actor => cases read
    | drop actor guard => exact reading
    | call actor call =>
      obtain rfl := Option.some.inj own
      rw [(work.next_call actor call).2, Progress.isRead_stage]
      exact (call.begins_begin work.pool actor).isRead read
    | advance actor | expire actor =>
      obtain rfl := Option.some.inj own
      obtain ⟨call, task, result, here, steps, _, stage, _⟩ := exists_stepsTo possible rfl
      rw [here] at reading
      rw [stage, Progress.isRead_stage]
      exact steps.isRead reading
  · rwa [work.stage_next_of_ne own]

theorem isRead_course {first : Workload} (course : Course (Reads owner) first work)
    (reading : (first.stage owner).isRead = true) : (work.stage owner).isRead = true := by
  induction course with
  | start => exact reading
  | step step course possible reads ih =>
    cases step with
    | hook hook => exact reads.elim
    | act action => exact isRead_next possible reads ih

theorem Steady.keeps_course {first : Workload} (steady : first.Steady start)
    (reading : (first.stage owner).isRead = true) (course : Course (Reads owner) first work)
    (few : work.registrations ≤ 2 ^ 32) : first.pool.Keeps owner work.pool := by
  induction course with
  | start => exact .refl owner first.pool
  | @step work step course possible reads ih =>
    have few' := Nat.le_trans (work.registers_next step).le few
    cases step with
    | hook hook => exact reads.elim
    | act action =>
      have steady := steady.course course (fun _ _ => Reads.kind) few'
      exact (ih few').trans (steady.keeps possible reads few (isRead_course course reading))

end Workload
end PagedTables
