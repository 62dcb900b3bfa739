import Mathlib.Logic.Relation
import PagedTables.Proofs.Sequence.Insertion
import PagedTables.Proofs.Workload.Reuse

/-! Changes of a table that fail. Nothing is different afterwards, except that a blank page may have been
put behind full ones, and that happens once however often the change is tried again. -/

namespace PagedTables

open Relation

def Call.changes : Call → Bool
  | insert _ _ | delete _ => true
  | fetch _ _ | scan _ | resume _ => false

namespace Pool

variable {start : Disk} {before pool later last : Pool} {owner : TransactionId} {page : PageId}
  {file : HeapFile} {disk : Disk} {progress : Progress} {tuple : Tuple} {phase : Phase}

/-- Every table has the pages that it had, with the tuples and the marks that they had. -/
structure Unchanged (pool later : Pool) : Prop where
  tables : later.tables = pool.tables
  marks : ∀ owner page, later.Marks owner page ↔ pool.Marks owner page
  logical : ∀ (page : PageId) (file : HeapFile), pool.tables[page.table]? = some file →
    later.logical file page = pool.logical file page

theorem Intact.unchanged (intact : pool.Intact later) (fresh : pool.Fresh start)
    (fresh' : later.Fresh start) : pool.Unchanged later where
  tables := intact.tables
  marks owner page := by rw [marks_iff, marks_iff, intact.changed]
  logical page file registered :=
    fresh.logical_congr fresh' intact.tables registered (intact.shown page)

theorem Grown.unchanged (fresh : before.Fresh start)
    (registered : before.tables[file.table]? = some file) (grown : before.Grown file disk)
    (intact : ({ before with disk } : Pool).Intact later) (fresh' : later.Fresh start) :
    before.Unchanged later := by
  have unchanged := intact.unchanged (fresh.grown registered grown) fresh'
  exact ⟨unchanged.tables, unchanged.marks, fun page holder found =>
    (unchanged.logical page holder found).trans (grown.logical_eq fresh registered found)⟩

theorem Unchanged.filledTo (unchanged : pool.Unchanged later)
    (registered : pool.tables[file.table]? = some file) {number : UInt32} :
    later.FilledTo file number ↔ pool.FilledTo file number := by
  have same : ∀ earlier, later.logical file ⟨file.table, earlier⟩ =
      pool.logical file ⟨file.table, earlier⟩ := fun earlier => unchanged.logical _ file registered
  simp only [FilledTo, Full, same]

theorem not_filledTo_of_lengthens (lengthens : file.Lengthens pool.disk later.disk)
    (shown : later.logical file (file.lastPage pool.disk) =
      .ok (List.replicate file.layout.numSlots none)) (some : 0 < file.layout.numSlots) :
    ¬later.FilledTo file (file.numPages later.disk) := by
  intro filled
  have below : file.numPages pool.disk < file.numPages later.disk := by
    rw [UInt32.lt_iff_toNat_lt, lengthens.count]
    exact Nat.lt_succ_self _
  obtain ⟨slots, shown', used⟩ := filled _ below
  obtain rfl := Except.ok.inj (shown.symm.trans shown')
  exact used (List.mem_replicate.mpr ⟨Nat.ne_of_gt some, rfl⟩)

theorem Sure.ends (patient : Bool) (sure : pool.Sure owner page phase) :
    (pool.runSteps patient 3 (.running (.access ⟨owner, page, .mark, phase⟩))).2 =
      .finished (.modified [page]) := by
  -- From the last phase backwards: each needs one more step than the phase that it leads to.
  have used : ∀ {pool : Pool} {stay : Nat} (fuel : Nat), pool.Sure owner page (.use stay) →
      (pool.runSteps patient (fuel + 1)
        (.running (.access ⟨owner, page, .mark, .use stay⟩))).2 = .finished (.modified [page]) := by
    intro pool stay fuel sure
    obtain ⟨later, _, same⟩ := sure.use
    rw [runSteps_of_not_waiting patient fuel pool rfl, Task.step, same, runSteps_finished]
  have pinned : ∀ {pool : Pool} (fuel : Nat), pool.Sure owner page .pin →
      (pool.runSteps patient (fuel + 2) (.running (.access ⟨owner, page, .mark, .pin⟩))).2 =
        .finished (.modified [page]) := by
    intro pool fuel sure
    obtain ⟨later, stay, _, same, next⟩ := sure.pin
    rw [runSteps_of_not_waiting patient (fuel + 1) pool rfl, Task.step, same]
    exact used fuel next
  cases phase with
  | wait => exact sure.cached.elim fun _ cached => cached.2.2.2.2.elim
  | use stay => exact used 2 sure
  | pin => exact pinned 1 sure
  | ask =>
    obtain ⟨later, _, same, next⟩ := sure.ask
    rw [runSteps_of_not_waiting patient 2 pool rfl, Task.step, same]
    exact pinned 0 next

theorem Remarks.ends {access : Access} (remarks : pool.Remarks owner page (.running (.access access)))
    (patient : Bool) : (pool.runSteps patient 3 (.running (.access access))).2 =
      .finished (.modified [access.page]) := by
  cases remarks with
  | marks phase sure => exact sure.ends patient

theorem ends_mark_of_insertion {job : Insertion} {access : Access}
    (goes : job.Goes before owner pool (.running (.access access))) (marks : access.purpose = .mark)
    (patient : Bool) : (pool.runSteps patient 3 (.running (.access access))).2 =
      .finished (.modified [access.page]) := by
  cases goes with
  | looks number purpose disk looks passed intact phase ready =>
    obtain rfl : purpose = .mark := marks
    cases looks
  | remarks page slot places progress remarks => exact remarks.ends patient

inductive Removes (before : Pool) (owner : TransactionId) (tuple : Tuple) (page : PageId)
    (pool : Pool) : Progress → Prop
  | seeks (intact : before.Intact pool) (phase : Phase)
      (ready : Access.Ready ⟨owner, page, .remove tuple true, phase⟩ pool) :
      Removes before owner tuple page pool
        (.running (.access ⟨owner, page, .remove tuple true, phase⟩))
  | fails (intact : before.Intact pool) (failure : Failure) (other : failure.isFull = false) :
      Removes before owner tuple page pool (.failed failure)
  | remarks (progress : Progress) (remarks : pool.Remarks owner page progress) :
      Removes before owner tuple page pool progress

theorem removes_of_comes (intact : before.Intact pool) (fresh : pool.Fresh start)
    {result : Pool × Progress}
    (comes : Access.Comes ⟨owner, page, .remove tuple true, phase⟩ pool result) :
    Removes before owner tuple page result.1 result.2 := by
  cases comes with
  | goes phase later near ready => exact .seeks (intact.trans near) phase ready
  | fails later near failure other => exact .fails (intact.trans near) failure other
  | uses holds resident present pinned cache frame replaces made pins free =>
    obtain ⟨file, housed⟩ := fresh.sound.housed page resident present
    show Removes before owner tuple page { pool with cache }
      (Purpose.act owner resident.frame.page (.remove tuple true)).2
    have made : frame.page = (Purpose.act owner resident.frame.page (.remove tuple true)).1 := made
    simp only [Purpose.act] at made ⊢
    -- A deletion that fails has not touched the page, and none of its errors is that of a full
    -- page.
    cases deleted : resident.frame.page.delete tuple with
    | error failure =>
      rw [deleted] at made
      refine .fails (intact.trans (intact_replaces present replaces made)) failure ?_
      unfold HeapPage.delete at deleted
      split at deleted
      · cases deleted
        rfl
      · split at deleted
        · split at deleted <;> cases deleted
          rfl
        · cases deleted
          rfl
    | ok after =>
      rw [deleted] at made
      obtain ⟨record, _, _, rfl⟩ := HeapPage.delete_eq deleted
      have named : frame.page.id = page := made ▸ housed.id
      have remarks := Access.remarks_of_written ⟨owner, page, .remove tuple true, phase⟩
        fresh.sound.valid holds pinned replaces pins free named (made ▸ rfl)
      rw [← housed.id] at remarks ⊢
      exact .remarks _ remarks

theorem Removes.fresh {task : Task} (removes : Removes before owner tuple page pool (.running task))
    (fresh : pool.Fresh start) {result : Pool × Progress} (steps : task.StepsTo pool result) :
    result.1.Fresh start := by
  cases removes with
  | seeks intact phase ready =>
    exact fresh.stepsTo steps (fun _ _ same => (by cases same)) fun _ wants => (by cases wants)
  | remarks progress remarks =>
    cases remarks with
    | marks phase sure =>
      exact fresh.stepsTo steps (fun _ _ same => (by cases same)) fun _ wants => (by cases wants)

theorem Removes.step {task : Task} (fresh : pool.Fresh start)
    (removes : Removes before owner tuple page pool (.running task)) :
    Removes before owner tuple page (task.step pool).1 (task.step pool).2 := by
  cases removes with
  | seeks intact phase ready => exact removes_of_comes intact fresh (Access.comes_step rfl ready)
  | remarks progress remarks => exact .remarks _ remarks.step.2.2

theorem Removes.expire {task : Task} (fresh : pool.Fresh start) (waiting : task.isWaiting = true)
    (removes : Removes before owner tuple page pool (.running task)) :
    Removes before owner tuple page (task.expire pool).1 (task.expire pool).2 := by
  cases removes with
  | seeks intact phase ready => exact removes_of_comes intact fresh (Access.comes_expire rfl)
  | remarks progress remarks => cases remarks.step.1.symm.trans waiting

theorem ends_mark_of_removes {access : Access}
    (removes : Removes before owner tuple page pool (.running (.access access)))
    (marks : access.purpose = .mark) (patient : Bool) :
    (pool.runSteps patient 3 (.running (.access access))).2 = .finished (.modified [access.page]) := by
  cases removes with
  | seeks intact phase ready => cases marks
  | remarks progress remarks => exact remarks.ends patient

theorem removes_deletion (pool : Pool) (owner : TransactionId) (tuple : Tuple) :
    ∃ page, Removes pool owner tuple page pool (pool.deletion owner tuple) := by
  have fails : ∀ failure : Failure, failure.isFull = false →
      ∃ page, Removes pool owner tuple page pool (.failed failure) := fun failure other =>
    ⟨⟨⟨0⟩, 0⟩, .fails (.refl pool) failure other⟩
  unfold deletion
  cases placed : tuple.recordId with
  | none => exact fails _ rfl
  | some record =>
    simp only [Pool.file, bind, Except.bind]
    cases registered : pool.tables[record.page.table]? with
    | none => exact fails _ rfl
    | some file =>
      simp only [HeapFile.deletion, placed]
      split
      · exact ⟨record.page, .seeks (.refl pool) .ask trivial⟩
      · exact fails _ rfl

theorem removes_run (fresh : pool.Fresh start) (owner : TransactionId) (tuple : Tuple) {patient : Bool}
    {fuel : Nat}
    (ran : pool.runSteps patient fuel ((Call.delete tuple).begin pool owner) = (later, progress)) :
    later.Fresh start ∧ ∃ page, Removes pool owner tuple page later progress := by
  obtain ⟨page, removes⟩ := pool.removes_deletion owner tuple
  have kept := runSteps_keeps (fun between progress => between.Fresh start ∧
      Removes pool owner tuple page between progress)
    (fun between task kept =>
      ⟨kept.2.fresh kept.1 (task.stepsTo_step between), kept.2.step kept.1⟩)
    (fun between task waiting kept =>
      ⟨kept.2.fresh kept.1 (task.stepsTo_expired between), kept.2.expire kept.1 waiting⟩)
    patient fuel ⟨fresh, removes⟩
  have ran : pool.runSteps patient fuel (pool.deletion owner tuple) = (later, progress) := ran
  rw [ran] at kept
  exact ⟨kept.1, page, kept.2⟩

/-- An operation was run while nothing else happened, and has failed. -/
def Fails (owner : TransactionId) (call : Call) (pool later : Pool) : Prop :=
  ∃ patient fuel failure,
    pool.runSteps patient fuel (call.begin pool owner) = (later, .failed failure)

section Insert

variable {table : TableId} (fresh : pool.Fresh start)
  (registered : pool.tables[table]? = some file)
include fresh registered

theorem insert_failed (few : pool.FilledTo file (file.numPages pool.disk) → file.HasNumber pool.disk)
    {patient : Bool} {fuel : Nat} {failure : Failure}
    (ran : pool.runSteps patient fuel ((Call.insert table tuple).begin pool owner) =
      (later, .failed failure)) :
    failure.isFull = false ∧ later.Fresh start ∧ pool.Unchanged later ∧ (later.disk = pool.disk ∨
      pool.FilledTo file (file.numPages pool.disk) ∧ file.Lengthens pool.disk later.disk) := by
  obtain ⟨fresh', goes⟩ := Insertion.goes_run fresh registered few tuple ran
  have longer := goes.lengthens_once.imp id fun longer => And.intro longer.1 longer.2.1
  have own : pool.tables[file.table]? = some file := by
    rwa [(fresh.sound.proper table file registered).2.1]
  cases goes with
  | fails disk grown intact failure other =>
    exact ⟨other, fresh', grown.unchanged fresh own intact fresh', longer⟩
  | remarks page slot places progress remarks => cases remarks

theorem insert_roomy (free : ¬pool.FilledTo file (file.numPages pool.disk)) (owner : TransactionId)
    (tuple : Tuple) (patient : Bool) (fuel : Nat) :
    (pool.runSteps patient fuel ((Call.insert table tuple).begin pool owner)).1.disk = pool.disk := by
  obtain ⟨_, goes⟩ := Insertion.goes_run fresh registered (fun filled => absurd filled free) tuple
    (rfl : pool.runSteps patient fuel ((Call.insert table tuple).begin pool owner) = (_, _))
  exact goes.lengthens_once.resolve_right fun longer => free longer.1

theorem insert_tried (free : ¬pool.FilledTo file (file.numPages pool.disk))
    (tried : ReflTransGen (Fails owner (.insert table tuple)) pool later) :
    later.Fresh start ∧ later.tables[table]? = some file ∧ later.disk = pool.disk ∧
      ¬later.FilledTo file (file.numPages later.disk) := by
  induction tried with
  | refl => exact ⟨fresh, registered, rfl, free⟩
  | tail tried fails ih =>
    obtain ⟨fresh', registered', disk, free'⟩ := ih
    obtain ⟨_, _, _, ran⟩ := fails
    obtain ⟨_, fresh'', unchanged, longer⟩ :=
      insert_failed fresh' registered' (fun filled => absurd filled free') ran
    have same := longer.resolve_right fun longer => free' longer.1
    have own := (fresh'.sound.proper table file registered').2.1
    refine ⟨fresh'', unchanged.tables ▸ registered', same.trans disk, ?_⟩
    rw [same, unchanged.filledTo (own ▸ registered')]
    exact free'

theorem insert_longer (fresh' : later.Fresh start) (unchanged : pool.Unchanged later)
    (lengthens : file.Lengthens pool.disk later.disk) (owner : TransactionId) (tuple : Tuple) :
    later.logical file (file.lastPage pool.disk) = .ok (List.replicate file.layout.numSlots none) ∧
      ∀ last, ReflTransGen (Fails owner (.insert table tuple)) later last → ∀ patient fuel,
        (last.runSteps patient fuel ((Call.insert table tuple).begin last owner)).1.disk =
          later.disk := by
  have proper := fresh.sound.proper table file registered
  have own : pool.tables[file.table]? = some file := by rwa [proper.2.1]
  have blank : later.logical file (file.lastPage pool.disk) =
      .ok (List.replicate file.layout.numSlots none) := by
    rw [unchanged.logical _ file own, Pool.logical, Pool.heap?,
      fresh.absent_of_beyond own lengthens.appends.beyond]
    exact proper.1.stored_of_not_covers rfl lengthens.appends.beyond
  have free := not_filledTo_of_lengthens lengthens blank proper.1.layout.slots_pos
  refine ⟨blank, fun last tried patient fuel => ?_⟩
  obtain ⟨fresh'', registered', disk, free'⟩ :=
    insert_tried fresh' (unchanged.tables ▸ registered) free tried
  exact (insert_roomy fresh'' registered' free' owner tuple patient fuel).trans disk

end Insert

end Pool

namespace Workload

/-- A change of a table that fails while nothing else happens changes nothing. An insertion may have put
a blank page behind full ones, and however often it is tried again and fails, it does so once. Once the
tuple has been put or deleted, what is left to do, having the page marked as changed, does not fail. -/
theorem failed_unchanged {config : Config} {start : Disk} {first later : Pool} {work : Workload}
    (small : config.pageSize < 2 ^ 32) (made : Pool.start config start = .ok first)
    (course : Course (fun work step => work.Sited step ∧ work.Roomed step) (Workload.start first) work)
    (few : work.registrations ≤ 2 ^ 32) (bounded : work.pool.Bounded) (owner : TransactionId)
    (call : Call) (changes : call.changes = true)
    {patient : Bool} {fuel : Nat} {progress : Progress}
    (ran : work.pool.runSteps patient fuel (call.begin work.pool owner) = (later, progress)) :
    (∀ failure, progress = .failed failure → failure.isFull = false ∧ work.pool.Unchanged later ∧
      (later.disk = work.pool.disk ∨ ∃ table tuple file, call = .insert table tuple ∧
        work.pool.tables[table]? = some file ∧
        work.pool.FilledTo file (file.numPages work.pool.disk) ∧
        file.Lengthens work.pool.disk later.disk ∧
        later.logical file (file.lastPage work.pool.disk) =
          .ok (List.replicate file.layout.numSlots none) ∧
        ∀ last, ReflTransGen (Pool.Fails owner call) later last → ∀ patient fuel,
          (last.runSteps patient fuel (call.begin last owner)).1.disk = later.disk)) ∧
      ∀ access, progress = .running (.access access) → access.purpose = .mark → ∀ patient,
        (later.runSteps patient 3 progress).2 = .finished (.modified [access.page]) := by
  have fresh := (current_of_roomed (current_start small made) course few).fresh
  cases call with
  | fetch page mode => cases changes
  | scan table => cases changes
  | resume cursor => cases changes
  | delete tuple =>
    obtain ⟨fresh', page, removes⟩ := Pool.removes_run fresh owner tuple ran
    refine ⟨?_, ?_⟩
    · rintro failure rfl
      cases removes with
      | fails intact failure other =>
        exact ⟨other, intact.unchanged fresh fresh', .inl intact.disk⟩
      | remarks progress remarks => cases remarks
    · rintro access rfl marks patient
      exact Pool.ends_mark_of_removes removes marks patient
  | insert table tuple =>
    -- Only where there is such a table can a page have been put behind the others.
    cases registered : work.pool.tables[table]? with
    | none =>
      rw [Call.begin, Pool.insertion_of_unknown registered, Progress.failed,
        Pool.runSteps_finished] at ran
      cases ran
      refine ⟨?_, fun access same => by cases same⟩
      rintro failure ⟨⟩
      exact ⟨rfl, (Pool.Intact.refl _).unchanged fresh fresh, .inl rfl⟩
    | some file =>
      have room : work.pool.FilledTo file (file.numPages work.pool.disk) →
          file.HasNumber work.pool.disk := fun _ => bounded.few registered
      refine ⟨?_, ?_⟩
      · rintro failure rfl
        obtain ⟨other, fresh', unchanged, longer⟩ := Pool.insert_failed fresh registered room ran
        refine ⟨other, unchanged, longer.imp_right ?_⟩
        rintro ⟨filled, lengthens⟩
        obtain ⟨blank, once⟩ :=
          Pool.insert_longer fresh registered fresh' unchanged lengthens owner tuple
        exact ⟨table, tuple, file, rfl, registered, filled, lengthens, blank, once⟩
      · rintro access rfl marks patient
        obtain ⟨_, goes⟩ := Insertion.goes_run fresh registered room tuple ran
        exact Pool.ends_mark_of_insertion goes marks patient

/-- The only place in the cache is taken by a full page with changes. A page is put behind it, but there
is no place for that; it is there when the tuple is inserted again. -/
theorem failed_unchanged_crowded :
    let filled := .create "numbers" numbers :: puts ⟨1⟩ 7 7 ++ puts ⟨1⟩ 8 6 ++ puts ⟨1⟩ 9 6
    let work := (filled.map Step.act).foldl next (Workload.start smallPool)
    let call : Call := .insert ⟨0⟩ (.ofFields [.int 4])
    ∃ later, work.pool.runSteps false 20 (call.begin work.pool ⟨1⟩) =
        (later, .failed (.error (.capacityExhausted 1))) ∧
      later.disk ≠ work.pool.disk ∧ work.pool.Unchanged later ∧
      ∀ patient fuel, (later.runSteps patient fuel (call.begin later ⟨1⟩)).1.disk = later.disk := by
  intro filled work call
  have made : Pool.start smallPool.config .blank = .ok smallPool := rfl
  have course : Course (fun work step => work.Sited step ∧ work.Roomed step)
      (Workload.start smallPool) work := .of_takes _ .start (by decide +kernel)
  have fails : (work.pool.runSteps false 20 (call.begin work.pool ⟨1⟩)).2 =
      .failed (.error (.capacityExhausted 1)) := by decide +kernel
  have longer : (work.pool.runSteps false 20 (call.begin work.pool ⟨1⟩)).1.disk ≠ work.pool.disk := by
    decide +kernel
  generalize ran : work.pool.runSteps false 20 (call.begin work.pool ⟨1⟩) = result at fails longer
  obtain ⟨later, progress⟩ := result
  obtain rfl : progress = .failed (.error (.capacityExhausted 1)) := fails
  obtain ⟨failed, _⟩ := failed_unchanged (by decide) made course (by decide +kernel)
    (by decide +kernel) ⟨1⟩ call rfl ran
  obtain ⟨_, unchanged, same | ⟨_, _, _, _, _, _, _, _, once⟩⟩ := failed _ rfl
  · exact absurd same longer
  · exact ⟨later, rfl, longer, unchanged, once later .refl⟩

/-- A table without pages has the id and the full page of another one. Two pages are put into its file
before a tuple finds no place. -/
theorem not_failed_unchanged :
    ¬∀ {config : Config} {start : Disk} {first later : Pool} {work : Workload},
      config.pageSize < 2 ^ 32 → Pool.start config start = .ok first →
      Course (fun work step => work.Sited step ∧ work.Roomed step) (Workload.start first) work →
      work.pool.Bounded → ∀ (owner : TransactionId) (table : TableId) (tuple : Tuple) {patient : Bool}
        {fuel : Nat} {failure : Failure},
        work.pool.runSteps patient fuel ((Call.insert table tuple).begin work.pool owner) =
            (later, .failed failure) →
          later.disk = work.pool.disk ∨ ∃ file, work.pool.tables[table]? = some file ∧
            file.Lengthens work.pool.disk later.disk := by
  intro unchanged
  let fills : List Action :=
    .create "numbers" numbers :: puts ⟨1⟩ 7 7 ++ puts ⟨1⟩ 8 6 ++ puts ⟨1⟩ 9 6
  let filled := (fills.map Step.act).foldl next (Workload.start smallPool)
  let work := (filled.passed (2 ^ 32 - 1)).next (.act (.create "letters" numbers))
  let call : Call := .insert ⟨0⟩ (.ofFields [.int 4])
  have made : Pool.start smallPool.config .blank = .ok smallPool := rfl
  have course : Course (fun work step => work.Sited step ∧ work.Roomed step)
      (Workload.start smallPool) filled := .of_takes (fills.map Step.act) .start (by decide +kernel)
  have missing : filled.pool.disk.find "missing" = .error (.system SystemError.noSuchFile) := by
    decide +kernel
  have passed := course.passed missing numbers (fun _ sited => ⟨sited, trivial⟩) (2 ^ 32 - 1)
  have onward : Course (fun work step => work.Sited step ∧ work.Roomed step)
      (Workload.start smallPool) work :=
    passed.step (.act (.create "letters" numbers)) trivial ⟨trivial, trivial⟩
  have fails : (work.pool.runSteps false 20 (call.begin work.pool ⟨1⟩)).2 =
      .failed (.error (.capacityExhausted 1)) := by decide +kernel
  have longer : (work.pool.runSteps false 20 (call.begin work.pool ⟨1⟩)).1.disk ≠ work.pool.disk := by
    decide +kernel
  have twice : (work.pool.tables[(⟨0⟩ : TableId)]?.all fun file => file.numPages work.pool.disk = 0 ∧
      file.numPages (work.pool.runSteps false 20 (call.begin work.pool ⟨1⟩)).1.disk = 2) = true := by
    decide +kernel
  generalize ran : work.pool.runSteps false 20 (call.begin work.pool ⟨1⟩) = result
    at fails longer twice
  obtain ⟨later, progress⟩ := result
  obtain rfl : progress = .failed (.error (.capacityExhausted 1)) := fails
  obtain same | ⟨file, registered, lengthens⟩ :=
    unchanged (by decide) made onward (by decide +kernel) ⟨1⟩ ⟨0⟩ _ ran
  · exact longer same
  · rw [registered] at twice
    obtain ⟨none, two⟩ := of_decide_eq_true twice
    have count := lengthens.count
    rw [none, two] at count
    exact absurd count (by decide)

end Workload
end PagedTables
