import PagedTables.Proofs.Workload.Reading

/-! What a transaction that only reads has scanned of a table. As long as it goes on, what it has read
is what the pages behind its cursor show. -/

namespace PagedTables

namespace Pool

def tuplesOn (pool : Pool) (page : PageId) : List Tuple :=
  match pool.shown page with
  | .ok heap => heap.tuples
  | .error _ => []

def tuples (pool : Pool) (table : TableId) (first last : UInt32) : List Tuple :=
  (List.range' first.toNat (last.toNat - first.toNat)).flatMap fun number =>
    pool.tuplesOn ⟨table, .ofNat number⟩

variable {pool later : Pool} {table : TableId} {first middle last : UInt32}

theorem tuples_self (pool : Pool) (table : TableId) (first : UInt32) :
    pool.tuples table first first = [] := by
  rw [tuples, Nat.sub_self]
  rfl

theorem tuples_append (pool : Pool) (table : TableId) (low : first ≤ middle) (high : middle ≤ last) :
    pool.tuples table first last =
      pool.tuples table first middle ++ pool.tuples table middle last := by
  have low := UInt32.le_iff_toNat_le.mp low
  have high := UInt32.le_iff_toNat_le.mp high
  have parts : last.toNat - first.toNat =
      (middle.toNat - first.toNat) + (last.toNat - middle.toNat) := by omega
  have joint : middle.toNat = first.toNat + (middle.toNat - first.toNat) := by omega
  rw [tuples, tuples, tuples, ← List.flatMap_append, parts, ← List.range'_append_1, ← joint]

theorem tuples_succ (pool : Pool) (table : TableId) {number stop : UInt32} (more : number < stop) :
    pool.tuples table 0 (number + 1) =
      pool.tuples table 0 number ++ pool.tuplesOn ⟨table, number⟩ := by
  have counted := toNat_succ_of_lt more
  have next : number ≤ number + 1 := UInt32.le_iff_toNat_le.mpr (counted ▸ Nat.le_succ _)
  rw [pool.tuples_append table (UInt32.zero_le) next]
  congr 1
  rw [tuples, counted, Nat.add_sub_cancel_left]
  simp

theorem tuples_congr (same : ∀ number < last, later.shown ⟨table, number⟩ = pool.shown ⟨table, number⟩) :
    later.tuples table 0 last = pool.tuples table 0 last := by
  refine List.flatMap_congr fun number member => ?_
  obtain ⟨_, below⟩ := List.mem_range'_1.mp member
  rw [UInt32.toNat_zero, Nat.zero_add, Nat.sub_zero] at below
  have inside : UInt32.ofNat number < last := by
    rw [UInt32.lt_iff_toNat_lt, UInt32.toNat_ofNat']
    exact Nat.lt_of_le_of_lt (Nat.mod_le _ _) below
  rw [tuplesOn, tuplesOn, same _ inside]

end Pool

/-- A scan of the first `count` pages of a file by a transaction: the pages behind the cursor are locked,
and their tuples were handed out or are pending. -/
structure Cursor.Accurate (owner : TransactionId) (file : HeapFile) (count : UInt32) (pool : Pool)
    (taken : List Tuple) (cursor : Cursor) : Prop where
  mine : cursor.owner = owner
  named : cursor.file = file
  counted : cursor.numPages = count
  registered : pool.tables[file.table]? = some file
  there : count ≤ file.numPages pool.disk
  within : cursor.nextPage ≤ count
  locked : ∀ number < cursor.nextPage, pool.locks.table.Holds owner ⟨file.table, number⟩ .shared
  read : taken ++ cursor.pending = pool.tuples file.table 0 cursor.nextPage

structure Access.Visits (owner : TransactionId) (file : HeapFile) (count : UInt32) (pool : Pool)
    (taken : List Tuple) (access : Access) (cursor : Cursor) (toEnd : Bool) : Prop where
  accurate : cursor.Accurate owner file count pool taken
  purpose : access.purpose = .visit cursor toEnd
  page : access.page = ⟨file.table, cursor.nextPage⟩
  ahead : cursor.nextPage < count
  seen : ∀ stay, access.phase = .use stay → pool.Seen access.page stay

def Progress.Scans (owner : TransactionId) (file : HeapFile) (count : UInt32) (pool : Pool)
    (taken : List Tuple) : Progress → Prop
  | running (.access access) => ∃ cursor toEnd, access.Visits owner file count pool taken cursor toEnd
  | running (.extend _ _) => False
  | finished (.scanned cursor _) => cursor.Accurate owner file count pool taken
  | finished _ => True

section Scan

variable {start : Disk} {owner : TransactionId} {file : HeapFile} {count : UInt32}
  {pool later : Pool} {taken : List Tuple} {cursor : Cursor} {heap : HeapPage} {access : Access}
  {progress : Progress} {task : Task} {result : Pool × Progress} {toEnd : Bool}

theorem Cursor.Accurate.keeps (accurate : cursor.Accurate owner file count pool taken)
    (keeps : pool.Keeps owner later) : cursor.Accurate owner file count later taken := by
  obtain ⟨mine, named, counted, registered, there, within, locked, read⟩ := accurate
  refine ⟨mine, named, counted, keeps.tables _ _ registered,
    UInt32.le_trans there (keeps.count _ _ registered), within,
    fun number behind => keeps.holds _ _ (locked number behind), read.trans (Eq.symm ?_)⟩
  refine Pool.tuples_congr fun number behind => ?_
  have inside : number < file.numPages pool.disk :=
    UInt32.lt_of_lt_of_le behind (UInt32.le_trans within there)
  exact keeps.shown ⟨file.table, number⟩ file registered inside (locked number behind)

theorem Cursor.accurate_start (pool : Pool) (owner : TransactionId)
    (registered : pool.tables[file.table]? = some file) :
    ((Cursor.closed file owner).start pool.disk).Accurate owner file (file.numPages pool.disk) pool
      [] :=
  ⟨rfl, rfl, rfl, registered, UInt32.le_refl _, UInt32.zero_le,
    fun _ behind => absurd behind UInt32.not_lt_zero, (pool.tuples_self file.table 0).symm⟩

theorem Cursor.Accurate.pop (accurate : cursor.Accurate owner file count pool taken) {next : Cursor}
    {tuple : Tuple} (pops : cursor.pop = (next, some tuple)) :
    next.Accurate owner file count pool (taken ++ [tuple]) := by
  obtain ⟨mine, named, counted, registered, there, within, locked, read⟩ := accurate
  unfold Cursor.pop at pops
  split at pops
  · next first rest isOpen pending =>
    cases pops
    refine ⟨mine, named, counted, registered, there, within, locked, ?_⟩
    rw [← read, pending, List.append_assoc]
    rfl
  · cases pops

theorem Cursor.Accurate.visit (accurate : cursor.Accurate owner file count pool taken)
    (ahead : cursor.nextPage < count)
    (holds : pool.locks.table.Holds owner ⟨file.table, cursor.nextPage⟩ .shared)
    (shown : pool.shown ⟨file.table, cursor.nextPage⟩ = .ok heap) :
    (cursor.visit heap).Accurate owner file count pool taken := by
  obtain ⟨mine, named, counted, registered, there, within, locked, read⟩ := accurate
  have next := toNat_succ_of_lt ahead
  have below := UInt32.lt_iff_toNat_lt.mp ahead
  refine ⟨mine, named, counted, registered, there, UInt32.le_iff_toNat_le.mpr (next ▸ below),
    fun number behind => ?_, ?_⟩
  · by_cases last : number = cursor.nextPage
    · exact last ▸ holds
    · have behind := UInt32.lt_iff_toNat_lt.mp behind
      have apart : number.toNat ≠ cursor.nextPage.toNat := fun same => last (UInt32.toNat_inj.mp same)
      simp only [Cursor.visit, next] at behind
      exact locked number (UInt32.lt_iff_toNat_lt.mpr (by omega))
  · show taken ++ (cursor.pending ++ heap.tuples) = pool.tuples file.table 0 (cursor.nextPage + 1)
    rw [pool.tuples_succ file.table ahead, ← read, List.append_assoc, Pool.tuplesOn, shown]

theorem Cursor.Accurate.scans_advance (accurate : cursor.Accurate owner file count pool taken)
    (toEnd : Bool) : (cursor.advance toEnd).Scans owner file count pool taken := by
  unfold Cursor.advance Cursor.wanted
  split
  · next page wanted =>
    split at wanted
    · next more =>
      obtain rfl := Option.some.inj wanted
      simp only [Bool.and_eq_true, decide_eq_true_eq] at more
      exact ⟨cursor, toEnd, accurate, rfl, by rw [accurate.named], accurate.counted ▸ more.2,
        fun stay phase => by cases phase⟩
    · cases wanted
  · exact accurate

theorem Progress.Scans.isRead (scans : progress.Scans owner file count pool taken) :
    progress.isRead = true := by
  cases progress with
  | finished finish => rfl
  | running task =>
    cases task with
    | extend worker job => exact scans.elim
    | access access =>
      obtain ⟨cursor, toEnd, visits⟩ := scans
      rw [Progress.isRead, Task.isRead, visits.purpose]
      rfl

theorem Cursor.Accurate.stopped (accurate : cursor.Accurate owner file count pool taken)
    (purpose : access.purpose = .visit cursor toEnd) {finish : Finish} (stops : access.Stops finish) :
    (Progress.finished finish).Scans owner file count pool taken := by
  rcases stops with rfl | ⟨failure, rfl⟩
  · exact trivial
  · rw [purpose]
    exact accurate

theorem Progress.Scans.stepsTo (fresh : pool.Fresh start) (grips : task.Grips pool.locks.table owner)
    (scans : (running task).Scans owner file count pool taken) (steps : task.StepsTo pool result) :
    result.2.Scans owner file count result.1 taken := by
  have keeps := steps.keeps scans.isRead owner
  cases task with
  | extend worker job => exact scans.elim
  | access access =>
    obtain ⟨cursor, toEnd, visits⟩ := scans
    obtain ⟨accurate, purpose, page, ahead, seen⟩ := visits
    have kept := accurate.keeps keeps
    cases steps with
    | granted _ locks further holds =>
      exact ⟨cursor, toEnd, kept, purpose, page, ahead, fun stay phase => by cases phase⟩
    | refused _ locks further =>
      exact ⟨cursor, toEnd, kept, purpose, page, ahead, fun stay phase => by cases phase⟩
    | stopped _ locks further stats finish stops => exact kept.stopped purpose stops
    | homeless _ phase later serves size finish stops => exact kept.stopped purpose stops
    | pinned _ phase later serves size resident present =>
      refine ⟨cursor, toEnd, kept, purpose, page, ahead, fun stay phase gone member stays named => ?_⟩
      -- The stay is new or that of the cached page, so no copy aside is of that stay.
      obtain rfl : resident.stay = stay := Phase.use.inj phase
      have apart := (serves.distinct fresh.sound.stays).apart access.page resident present gone member
      exact absurd stays apart
    | looked _ stay phase cache visits =>
      have serves := Pool.Serves.of_visits visits pool.stats
      exact ⟨cursor, toEnd, kept, purpose, page, ahead,
        fun stay phase => (seen stay phase).serves serves⟩
    | guarded _ stay phase cache visits => exact trivial
    | used _ stay phase cache rewrites heap shows progress leads =>
      obtain ⟨rfl, _, holds⟩ := grips
      have holds := holds (.inr ⟨stay, phase⟩)
      rw [purpose] at holds leads
      have shown := fresh.shown_of_shows (seen stay phase) shows
      have reads : access.purpose.isWrite = false := by
        rw [purpose]
        rfl
      have visits := rewrites.visits fun heap => Purpose.act_of_read reads access.owner heap
      have same := (Pool.Serves.of_visits visits pool.stats).alike.shown access.page
      have advanced : (cursor.visit heap).Accurate _ file count { pool with cache } taken :=
        kept.visit ahead (page ▸ holds) (page ▸ same.symm.trans shown)
      cases leads with
      | ended _ finish closes =>
        rcases closes with rfl | ⟨failure, rfl⟩ | rfl
        · exact trivial
        · exact trivial
        · exact trivial
      | remarked _ writes => cases writes
      | filled _ job wants => cases wants
      | visited => exact advanced.scans_advance toEnd
    | idled => exact ⟨cursor, toEnd, accurate, purpose, page, ahead, seen⟩

end Scan

def Progress.step (pool : Pool) : Progress → Pool × Progress
  | running task => task.step pool
  | finished finish => (pool, .finished finish)

def Progress.expire (pool : Pool) : Progress → Pool × Progress
  | running task => task.expire pool
  | finished finish => (pool, .finished finish)

def Progress.cursor? : Progress → Option Cursor
  | finished (.scanned cursor _) => some cursor
  | _ => none

theorem Progress.Scans.accurate {owner : TransactionId} {file : HeapFile} {count : UInt32}
    {pool : Pool} {taken : List Tuple} {progress : Progress} {cursor : Cursor}
    (scans : progress.Scans owner file count pool taken) (comes : progress.cursor? = some cursor) :
    cursor.Accurate owner file count pool taken := by
  cases progress with
  | running task => cases comes
  | finished finish =>
    cases finish with
    | scanned other failure =>
      obtain rfl := Option.some.inj comes
      exact scans
    | failed failure => cases comes
    | locked => cases comes
    | guarded guard => cases comes
    | modified pages => cases comes

namespace Workload

/-- How far a call of a transaction has got, while the others take steps too. -/
inductive Calls (owner : TransactionId) (call : Call) (first : Workload) :
    Workload → Progress → Prop
  | begins (possible : first.Possible (.act (.call owner call))) :
      Calls owner call first (first.next (.act (.call owner call))) (call.begin first.pool owner)
  | meanwhile {work : Workload} {progress : Progress} (action : Action)
      (calls : Calls owner call first work progress) (possible : work.Possible (.act action))
      (filed : work.Filed (.act action)) (other : action.owner? ≠ some owner) :
      Calls owner call first (work.next (.act action)) progress
  | advances {work : Workload} {progress : Progress} (calls : Calls owner call first work progress)
      (possible : work.Possible (.act (.advance owner)))
      (filed : work.Filed (.act (.advance owner))) :
      Calls owner call first (work.next (.act (.advance owner))) (progress.step work.pool).2
  | expires {work : Workload} {progress : Progress} (calls : Calls owner call first work progress)
      (possible : work.Possible (.act (.expire owner))) :
      Calls owner call first (work.next (.act (.expire owner))) (progress.expire work.pool).2

/-- How far a scan of a table has got that was opened by a transaction that only reads: what was taken
from it, and where it goes on. -/
inductive Scanned (owner : TransactionId) (table : TableId) (opened : Workload) :
    Workload → List Tuple → Cursor → Prop
  | opens (idle : opened.stage owner = .idle) (file : HeapFile)
      (registered : opened.pool.tables[table]? = some file) :
      Scanned owner table opened opened [] ((Cursor.closed file owner).start opened.pool.disk)
  | reads {work : Workload} {progress : Progress} {cursor : Cursor}
      (calls : Calls owner (.scan table) opened work progress)
      (comes : progress.cursor? = some cursor) : Scanned owner table opened work [] cursor
  | resumes {work later : Workload} {progress : Progress} {taken : List Tuple}
      {cursor next : Cursor} (scanned : Scanned owner table opened work taken cursor)
      (calls : Calls owner (.resume cursor) work later progress)
      (comes : progress.cursor? = some next) : Scanned owner table opened later taken next
  | pops {work : Workload} {taken : List Tuple} {cursor next : Cursor} {tuple : Tuple}
      (scanned : Scanned owner table opened work taken cursor)
      (pops : cursor.pop = (next, some tuple)) :
      Scanned owner table opened work (taken ++ [tuple]) next
  | meanwhile {work : Workload} {taken : List Tuple} {cursor : Cursor} (step : Step)
      (scanned : Scanned owner table opened work taken cursor) (possible : work.Possible step)
      (reads : work.Reads owner step) : Scanned owner table opened (work.next step) taken cursor

variable {start : Disk} {owner : TransactionId} {file : HeapFile} {count : UInt32}
  {table : TableId} {call : Call} {opened first work later : Workload} {taken : List Tuple}
  {cursor : Cursor} {progress : Progress} {action : Action}

theorem Calls.course (calls : Calls owner call first work progress) (reads : call.isRead = true) :
    Course (Reads owner) first work := by
  induction calls with
  | begins possible => exact .step _ .start possible ⟨trivial, fun _ => reads⟩
  | meanwhile action calls possible filed other ih =>
    exact .step _ ih possible ⟨filed, fun own => absurd own other⟩
  | advances calls possible filed ih => exact .step _ ih possible ⟨filed, fun _ => rfl⟩
  | expires calls possible ih => exact .step _ ih possible ⟨trivial, fun _ => rfl⟩

theorem exists_running (stage : work.stage owner = progress.stage call)
    (working : (work.stage owner).isWorking = true) : ∃ task, progress = .running task := by
  cases progress with
  | running task => exact ⟨task, rfl⟩
  | finished finish =>
    rw [stage] at working
    cases working

theorem Calls.stage (calls : Calls owner call first work progress) :
    work.stage owner = progress.stage call := by
  induction calls with
  | begins possible => exact (first.next_call owner call).2
  | meanwhile action calls possible filed other ih => rwa [stage_next_of_ne _ other]
  | advances calls possible filed ih =>
    obtain ⟨task, rfl⟩ := exists_running ih possible
    exact (next_advance ih).2
  | expires calls possible ih =>
    obtain ⟨task, rfl⟩ := exists_running ih (Stage.isWorking_of_isWaiting possible)
    exact (next_expire ih).2

theorem Steady.scans (steady : work.Steady start) (possible : work.Possible (.act action))
    (filed : work.Filed (.act action)) (few : (work.next (.act action)).registrations ≤ 2 ^ 32)
    (other : action.owner? ≠ some owner) (stage : work.stage owner = progress.stage call)
    (scans : progress.Scans owner file count work.pool taken) :
    progress.Scans owner file count (work.next (.act action)).pool taken := by
  have reading : (work.stage owner).isRead = true := by
    rw [stage, Progress.isRead_stage, scans.isRead]
  have keeps := steady.keeps possible ⟨filed, fun own => absurd own other⟩ few reading
  cases progress with
  | finished finish =>
    cases finish with
    | scanned cursor failure => exact Cursor.Accurate.keeps scans keeps
    | failed failure => exact trivial
    | locked => exact trivial
    | guarded guard => exact trivial
    | modified pages => exact trivial
  | running task =>
    cases task with
    | extend worker job => exact scans.elim
    | access access =>
      obtain ⟨cursor, toEnd, accurate, purpose, page, ahead, seen⟩ := scans
      refine ⟨cursor, toEnd, accurate.keeps keeps, purpose, page, ahead, fun stay phase => ?_⟩
      have grips := (steady.orderly.gripped owner).working call _ stage
      have holds := (grips.2.2 (.inr ⟨stay, phase⟩)).shared
      -- While the page is in use its lock is held, so that a copy aside is left as it is.
      rcases steady.orderly.next_cases possible with filing | ⟨actor, acts, deed⟩
      · intro gone member stays named
        rw [filing.cache] at member
        have inside : cursor.nextPage < file.numPages work.pool.disk :=
          UInt32.lt_of_lt_of_le ahead accurate.there
        rw [page] at holds ⊢
        rw [keeps.shown _ file accurate.registered inside holds, ← page]
        exact seen stay phase gone member stays named
      · have apart : owner ≠ actor := fun same => other (same ▸ acts)
        exact deed.seen steady.current.fresh steady.orderly.owned holds apart (seen stay phase)

theorem Calls.scans (calls : Calls owner call first work progress) (steady : first.Steady start)
    (few : work.registrations ≤ 2 ^ 32) (reads : call.isRead = true)
    (begins : (call.begin first.pool owner).Scans owner file count first.pool taken) :
    progress.Scans owner file count work.pool taken := by
  induction calls with
  | begins possible => exact (first.next_call owner call).1 ▸ begins
  | @meanwhile work progress action calls possible filed other ih =>
    have few' := Nat.le_trans (work.registers_next (.act action)).le few
    have steady := steady.course (calls.course reads) (fun _ _ => Reads.kind) few'
    exact steady.scans possible filed few other calls.stage (ih few')
  | @advances work progress calls possible filed ih =>
    have few' := Nat.le_trans (work.registers_next (.act (.advance owner))).le few
    have steady := steady.course (calls.course reads) (fun _ _ => Reads.kind) few'
    obtain ⟨task, rfl⟩ := exists_running calls.stage possible
    have grips := (steady.orderly.gripped owner).working call task calls.stage
    rw [(next_advance calls.stage).1]
    exact (ih few').stepsTo steady.current.fresh grips (task.stepsTo_step work.pool)
  | @expires work progress calls possible ih =>
    have few' := Nat.le_trans (work.registers_next (.act (.expire owner))).le few
    have steady := steady.course (calls.course reads) (fun _ _ => Reads.kind) few'
    obtain ⟨task, rfl⟩ := exists_running calls.stage (Stage.isWorking_of_isWaiting possible)
    have grips := (steady.orderly.gripped owner).working call task calls.stage
    rw [(next_expire calls.stage).1]
    exact (ih few').stepsTo steady.current.fresh grips (task.stepsTo_expired work.pool)

theorem Calls.idle (calls : Calls owner call first work progress) : first.stage owner = .idle := by
  induction calls with
  | begins possible => exact possible
  | meanwhile action calls possible filed other ih => exact ih
  | advances calls possible filed ih => exact ih
  | expires calls possible ih => exact ih

theorem Calls.ended (calls : Calls owner call first work progress) {finish : Finish}
    (ended : call.begin first.pool owner = .finished finish) : progress = .finished finish := by
  induction calls with
  | begins possible => exact ended
  | meanwhile action calls possible filed other ih => exact ih
  | advances calls possible filed ih =>
    rw [ih]
    rfl
  | expires calls possible ih =>
    rw [ih]
    rfl

theorem Scanned.idle (scanned : Scanned owner table opened work taken cursor) :
    opened.stage owner = .idle := by
  induction scanned with
  | opens idle file registered => exact idle
  | reads calls comes => exact calls.idle
  | resumes scanned calls comes ih => exact ih
  | pops scanned pops ih => exact ih
  | meanwhile step scanned possible reads ih => exact ih

theorem Scanned.isRead (scanned : Scanned owner table opened work taken cursor) :
    (opened.stage owner).isRead = true := by
  rw [scanned.idle]
  rfl

theorem Scanned.course (scanned : Scanned owner table opened work taken cursor) :
    Course (Reads owner) opened work := by
  induction scanned with
  | opens idle file registered => exact .start
  | reads calls comes => exact calls.course rfl
  | resumes scanned calls comes ih => exact ih.trans (calls.course rfl)
  | pops scanned pops ih => exact ih
  | meanwhile step scanned possible reads ih => exact .step step ih possible reads

theorem Scanned.along (scanned : Scanned owner table opened work taken cursor)
    (course : Course (Reads owner) work later) : Scanned owner table opened later taken cursor := by
  induction course with
  | start => exact scanned
  | step step course possible reads ih => exact .meanwhile step ih possible reads

theorem Scanned.accurate (scanned : Scanned owner table opened work taken cursor)
    (steady : opened.Steady start) (few : work.registrations ≤ 2 ^ 32) :
    ∃ file, opened.pool.tables[table]? = some file ∧
      cursor.Accurate owner file (file.numPages opened.pool.disk) work.pool taken := by
  have begun : ∀ {file : HeapFile}, opened.pool.tables[table]? = some file →
      ((Cursor.closed file owner).start opened.pool.disk).Accurate owner file
        (file.numPages opened.pool.disk) opened.pool [] := by
    intro file registered
    have own := (steady.current.fresh.sound.proper _ _ registered).2.1
    exact Cursor.accurate_start opened.pool owner (own.symm ▸ registered)
  -- By induction on how far the scan has got: what is accurate stays so while the pages behind the
  -- cursor are locked.
  induction scanned with
  | opens idle file registered => exact ⟨file, registered, begun registered⟩
  | reads calls comes =>
    have begins := (Call.scan table).begins_begin opened.pool owner
    generalize first : (Call.scan table).begin opened.pool owner = progress at begins
    cases begins with
    | failed failure =>
      rw [calls.ended first] at comes
      cases comes
    | scans table file registered =>
      have scans := calls.scans steady few rfl (first ▸ (begun registered).scans_advance true)
      exact ⟨file, registered, scans.accurate comes⟩
  | @resumes work later progress taken cursor next scanned calls comes ih =>
    have few' := Nat.le_trans (calls.course rfl).registrations_le few
    obtain ⟨file, registered, accurate⟩ := ih few'
    have steady := steady.course scanned.course (fun _ _ => Reads.kind) few'
    have same : (Call.resume cursor).begin work.pool owner = cursor.advance false := by
      rw [← accurate.mine]
      rfl
    have scans := calls.scans steady few rfl (same ▸ accurate.scans_advance false)
    exact ⟨file, registered, scans.accurate comes⟩
  | pops scanned pops ih =>
    obtain ⟨file, registered, accurate⟩ := ih few
    exact ⟨file, registered, accurate.pop pops⟩
  | @meanwhile work taken cursor step scanned possible reads ih =>
    have few' := Nat.le_trans (work.registers_next step).le few
    obtain ⟨file, registered, accurate⟩ := ih few'
    refine ⟨file, registered, accurate.keeps ?_⟩
    cases step with
    | hook hook => exact reads.elim
    | act action =>
      have steady := steady.course scanned.course (fun _ _ => Reads.kind) few'
      exact steady.keeps possible reads few (isRead_course scanned.course scanned.isRead)

end Workload
end PagedTables
