import PagedTables.Proofs.Workload.Enumeration

/-! A scan that is gone through one tuple at a time, while others take steps between the calls and during
them. -/

namespace PagedTables

def Step.owner? : Step → Option TransactionId
  | act action => action.owner?
  | hook _ => none

namespace Workload

/-- Tables get files of their own, no file gets too long, and there are hooks only where they are
allowed. -/
def Permits (hooks : Bool) (work : Workload) (step : Step) : Prop :=
  work.Filed step ∧ (hooks = false → Unhooked step)

instance (hooks : Bool) (work : Workload) (step : Step) : Decidable (work.Permits hooks step) :=
  inferInstanceAs (Decidable (_ ∧ (_ → _)))

/-- How far a call has got that looks for the next tuple of a scan. Others may take any steps meanwhile
that leave the tuples of the pages as they are. Where there are hooks, the locks do not see to it that a
copy of a page which a hook has dropped is left as it is. -/
inductive Resumes (hooks : Bool) (owner : TransactionId) (file : HeapFile)
    (contents : UInt32 → List Tuple) (reading : Reading) (cursor : Cursor) (first : Workload) :
    Workload → Progress → Prop
  | begins (idle : first.stage owner = .idle) :
      Resumes hooks owner file contents reading cursor first
        (first.next (.act (.call owner (.resume cursor)))) (cursor.advance false)
  | advances {work : Workload} {progress : Progress}
      (resumes : Resumes hooks owner file contents reading cursor first work progress)
      (working : (work.stage owner).isWorking = true) :
      Resumes hooks owner file contents reading cursor first (work.next (.act (.advance owner)))
        (progress.step work.pool).2
  | expires {work : Workload} {progress : Progress}
      (resumes : Resumes hooks owner file contents reading cursor first work progress)
      (waiting : (work.stage owner).isWaiting = true) :
      Resumes hooks owner file contents reading cursor first (work.next (.act (.expire owner)))
        (progress.expire work.pool).2
  | meanwhile {work : Workload} {progress : Progress} (step : Step)
      (resumes : Resumes hooks owner file contents reading cursor first work progress)
      (possible : work.Possible step) (permits : work.Permits hooks step)
      (other : step.owner? ≠ some owner) (has : reading.Has (work.next step).pool file.table contents)
      (spared : hooks = true → progress.Undisturbed work.pool (work.next step).pool) :
      Resumes hooks owner file contents reading cursor first (work.next step) progress

/-- What has been done with a scan of a file since it was made: where it is, and what its user knows of
it. Between the calls all may take any steps that leave the tuples of the pages as they are. -/
inductive Iterated (hooks : Bool) (owner : TransactionId) (file : HeapFile)
    (contents : UInt32 → List Tuple) (first : Workload) : Workload → Cursor → Reading → Prop
  | created : Iterated hooks owner file contents first first (Cursor.closed file owner) .closed
  | started {work : Workload} {cursor : Cursor} {reading : Reading}
      (iterated : Iterated hooks owner file contents first work cursor reading)
      (has : work.pool.Has file.table contents (file.numPages work.pool.disk)) :
      Iterated hooks owner file contents first work (cursor.start work.pool.disk)
        (.going (file.numPages work.pool.disk) [])
  | rewound {work : Workload} {cursor : Cursor} {reading : Reading}
      (iterated : Iterated hooks owner file contents first work cursor reading)
      (has : work.pool.Has file.table contents (file.numPages work.pool.disk)) :
      Iterated hooks owner file contents first work (cursor.rewind work.pool.disk)
        (.going (file.numPages work.pool.disk) [])
  | closed {work : Workload} {cursor : Cursor} {reading : Reading}
      (iterated : Iterated hooks owner file contents first work cursor reading) :
      Iterated hooks owner file contents first work cursor.close .closed
  | asked {work later : Workload} {cursor next : Cursor} {reading : Reading} {progress : Progress}
      {answer : Except Failure Bool}
      (iterated : Iterated hooks owner file contents first work cursor reading)
      (resumes : Resumes hooks owner file contents reading cursor work later progress)
      (answers : progress.hasNext? cursor = some (next, answer)) :
      Iterated hooks owner file contents first later next reading
  | took {work later : Workload} {cursor next : Cursor} {reading : Reading} {progress : Progress}
      {answer : Except Failure (Option Tuple)}
      (iterated : Iterated hooks owner file contents first work cursor reading)
      (resumes : Resumes hooks owner file contents reading cursor work later progress)
      (answers : progress.nextTuple? cursor = some (next, answer)) :
      Iterated hooks owner file contents first later next (reading.gave answer)
  | meanwhile {work : Workload} {cursor : Cursor} {reading : Reading} (step : Step)
      (iterated : Iterated hooks owner file contents first work cursor reading)
      (possible : work.Possible step) (permits : work.Permits hooks step)
      (has : reading.Has (work.next step).pool file.table contents) :
      Iterated hooks owner file contents first (work.next step) cursor reading

structure Regular (start : Disk) (hooks : Bool) (work : Workload) : Prop where
  current : work.Current start
  steady : hooks = false → work.Steady start

structure Rests (start : Disk) (hooks : Bool) (owner : TransactionId) (file : HeapFile)
    (contents : UInt32 → List Tuple) (work : Workload) (cursor : Cursor) (reading : Reading) :
    Prop where
  regular : work.Regular start hooks
  has : reading.Has work.pool file.table contents
  place : cursor.At owner file contents reading

structure Pursues (start : Disk) (hooks : Bool) (owner : TransactionId) (file : HeapFile)
    (contents : UInt32 → List Tuple) (reading : Reading) (cursor : Cursor) (work : Workload)
    (progress : Progress) : Prop where
  regular : work.Regular start hooks
  has : reading.Has work.pool file.table contents
  stage : work.stage owner = progress.stage (.resume cursor)
  iterates : progress.Iterates owner file contents reading work.pool

variable {start : Disk} {hooks : Bool} {owner : TransactionId} {file : HeapFile}
  {contents : UInt32 → List Tuple} {reading : Reading} {first work later : Workload}
  {cursor : Cursor} {progress : Progress} {task : Task} {step : Step}

theorem stage_next_of_owner?_ne (work : Workload) (other : step.owner? ≠ some owner) :
    (work.next step).stage owner = work.stage owner := by
  cases step with
  | hook hook => rfl
  | act action => exact work.stage_next_of_ne other

theorem Regular.next_of_roomed (regular : work.Regular start hooks) {action : Action}
    (possible : work.Possible (.act action)) (sited : work.Sited (.act action))
    (few : (work.next (.act action)).registrations ≤ 2 ^ 32) (roomed : work.Roomed (.act action)) :
    (work.next (.act action)).Regular start hooks :=
  ⟨regular.current.next possible sited few roomed,
    fun none => (regular.steady none).next_of_roomed possible sited few roomed⟩

theorem Regular.next (regular : work.Regular start hooks) (possible : work.Possible step)
    (permits : work.Permits hooks step) (few : (work.next step).registrations ≤ 2 ^ 32) :
    (work.next step).Regular start hooks := by
  obtain ⟨filed, unhooked⟩ := permits
  cases step with
  | act action =>
    exact regular.next_of_roomed possible filed.sited few (regular.current.roomed filed)
  | hook hook =>
    exact ⟨regular.current.next possible trivial few trivial, fun none => (unhooked none).elim⟩

theorem Steady.undisturbed (steady : work.Steady start) {action : Action} {call : Call}
    (possible : work.Possible (.act action)) (other : action.owner? ≠ some owner)
    (stage : work.stage owner = progress.stage call) :
    progress.Undisturbed work.pool (work.next (.act action)).pool := by
  rintro access stay rfl phase gone aside stays named
  have shown : ∀ before : Resident, before ∈ work.pool.cache.departed →
      gone.stay = before.stay ∧ gone.frame.id = before.frame.id ∧
        gone.frame.page = before.frame.page →
      ∃ heap, work.pool.cache.Shows access.page stay heap ∧ gone.frame.page.tuples = heap.tuples := by
    rintro before member ⟨stay', id, heap⟩
    exact ⟨before.frame.page, ⟨before, stay'.symm.trans stays, rfl,
      .inr ⟨member, id.symm.trans named⟩⟩, by rw [heap]⟩
  rcases steady.orderly.next_cases possible with filing | ⟨actor, acts, deed⟩
  · rw [filing.cache] at aside
    exact shown gone aside ⟨rfl, rfl, rfl⟩
  · cases deed.gone aside with
    | kept before member same => exact shown before member (Resident.rested_eq_iff.mp same)
    | dropped place present =>
      obtain rfl : place = access.page :=
        (steady.current.fresh.sound.named place gone present).symm.trans named
      exact ⟨_, ⟨gone, stays, rfl, .inl present⟩, rfl⟩
    | used writing mine holds before member there same =>
      obtain ⟨stay', id, heap⟩ := Resident.rested_eq_iff.mp same
      have held := ((steady.orderly.gripped owner).working call _ stage).2.2 (.inr ⟨stay, phase⟩)
      have apart : owner ≠ writing.owner := by
        rintro rfl
        exact other (acts.trans (congrArg some mine.symm))
      rcases steady.orderly.owned.elsewhere_or_still holds held apart with elsewhere | still
      · exact absurd (named.symm.trans (id.trans there)) elsewhere
      · exact shown before member ⟨stay', id, heap.trans (still _)⟩

theorem Pursues.roomed
    (pursues : work.Pursues start hooks owner file contents reading cursor (.running task)) :
    work.Roomed (.act (.advance owner)) := by
  obtain ⟨_, _, stage, iterates⟩ := pursues
  intro file longer
  cases task with
  | extend worker job => exact iterates.elim
  | access access =>
    unfold lengthened? at longer
    rw [stage] at longer
    cases longer

theorem Pursues.stepsTo
    (pursues : work.Pursues start hooks owner file contents reading cursor (.running task))
    {result : Pool × Progress} (steps : task.StepsTo work.pool result)
    (regular : later.Regular start hooks) (pool : later.pool = result.1)
    (stage : later.stage owner = result.2.stage (.resume cursor)) :
    later.Pursues start hooks owner file contents reading cursor result.2 := by
  have iterates := pursues.iterates.stepsTo pursues.regular.current.fresh pursues.has steps
  have reads : task.isRead = true := by
    cases task with
    | extend worker job => exact pursues.iterates.elim
    | access access => exact pursues.iterates.elim fun _ reads => reads.isRead
  exact ⟨regular, pool ▸ pursues.has.congr (steps.shown_eq reads), stage, pool ▸ iterates⟩

theorem Resumes.course
    (resumes : Resumes hooks owner file contents reading cursor first work progress) :
    Course (fun _ _ => True) first work := by
  induction resumes with
  | begins idle => exact .step _ .start idle trivial
  | advances resumes working ih => exact .step _ ih working trivial
  | expires resumes waiting ih => exact .step _ ih waiting trivial
  | meanwhile step resumes possible permits other has spared ih => exact .step step ih possible trivial

theorem Resumes.pursues
    (resumes : Resumes hooks owner file contents reading cursor first work progress)
    (few : work.registrations ≤ 2 ^ 32)
    (rests : first.Rests start hooks owner file contents cursor reading) :
    work.Pursues start hooks owner file contents reading cursor progress := by
  -- By induction on how far the call has got. The bound on the ids holds earlier if it holds later.
  induction resumes with
  | begins idle =>
    obtain ⟨pool, stage⟩ := first.next_call owner (.resume cursor)
    have possible : first.Possible (.act (.call owner (.resume cursor))) := idle
    have regular := rests.regular.next possible ⟨trivial, fun _ => trivial⟩ few
    refine ⟨regular, pool ▸ rests.has, ?_, rests.place.iterates_advance⟩
    rw [stage, ← rests.place.mine]
    rfl
  | @advances work progress resumes working ih =>
    have pursues := ih (Nat.le_trans (work.registers_next (.act (.advance owner))).le few)
    obtain ⟨task, rfl⟩ := exists_running pursues.stage working
    obtain ⟨pool, stage⟩ := next_advance pursues.stage
    exact pursues.stepsTo (task.stepsTo_step work.pool)
      (pursues.regular.next_of_roomed working trivial few pursues.roomed) pool stage
  | @expires work progress resumes waiting ih =>
    have pursues := ih (Nat.le_trans (work.registers_next (.act (.expire owner))).le few)
    obtain ⟨task, rfl⟩ := exists_running pursues.stage (Stage.isWorking_of_isWaiting waiting)
    obtain ⟨pool, stage⟩ := next_expire pursues.stage
    exact pursues.stepsTo (task.stepsTo_expired work.pool)
      (pursues.regular.next_of_roomed waiting trivial few trivial) pool stage
  | @meanwhile work progress step resumes possible permits other has spared ih =>
    have pursues := ih (Nat.le_trans (work.registers_next step).le few)
    have regular := pursues.regular.next possible permits few
    have spared : progress.Undisturbed work.pool (work.next step).pool := by
      cases hooks with
      | true => exact spared rfl
      | false =>
        cases step with
        | hook hook => exact (permits.2 rfl).elim
        | act action => exact (pursues.regular.steady rfl).undisturbed possible other pursues.stage
    exact ⟨regular, has, (work.stage_next_of_owner?_ne other).trans pursues.stage,
      pursues.iterates.meanwhile regular.current.fresh has spared⟩

theorem Iterated.rests (iterated : Iterated hooks owner file contents first work cursor reading)
    (few : work.registrations ≤ 2 ^ 32) (regular : first.Regular start hooks) :
    work.Rests start hooks owner file contents cursor reading := by
  induction iterated with
  | created => exact ⟨regular, trivial, .closed file owner⟩
  | started iterated has ih =>
    have rests := ih few
    exact ⟨rests.regular, has, rests.place.start _⟩
  | rewound iterated has ih =>
    have rests := ih few
    exact ⟨rests.regular, has, rests.place.close.start _⟩
  | closed iterated ih =>
    have rests := ih few
    exact ⟨rests.regular, trivial, rests.place.close⟩
  | asked iterated resumes answers ih =>
    have rests := ih (Nat.le_trans resumes.course.registrations_le few)
    have pursues := resumes.pursues few rests
    exact ⟨pursues.regular, pursues.has, (pursues.iterates.hasNext rests.place answers).1⟩
  | @took work later cursor next reading progress answer iterated resumes answers ih =>
    have rests := ih (Nat.le_trans resumes.course.registrations_le few)
    have pursues := resumes.pursues few rests
    exact ⟨pursues.regular, pursues.has.gave answer,
      (pursues.iterates.nextTuple rests.place answers).1⟩
  | @meanwhile work cursor reading step iterated possible permits has ih =>
    have rests := ih (Nat.le_trans (work.registers_next step).le few)
    exact ⟨rests.regular.next possible permits few, has, rests.place⟩

theorem Iterated.course (iterated : Iterated hooks owner file contents first work cursor reading) :
    Course (fun _ _ => True) first work := by
  induction iterated with
  | created => exact .start
  | started iterated has ih => exact ih
  | rewound iterated has ih => exact ih
  | closed iterated ih => exact ih
  | asked iterated resumes answers ih => exact ih.trans resumes.course
  | took iterated resumes answers ih => exact ih.trans resumes.course
  | meanwhile step iterated possible permits has ih => exact .step step ih possible trivial

theorem Iterated.along (iterated : Iterated hooks owner file contents first work cursor reading)
    (course : Course (fun work step => work.Permits hooks step ∧
      reading.Has (work.next step).pool file.table contents) work later) :
    Iterated hooks owner file contents first later cursor reading := by
  induction course with
  | start => exact iterated
  | step step course possible kind ih => exact .meanwhile step ih possible kind.1 kind.2

end Workload
end PagedTables
