import PagedTables.Proofs.Workload.Coherent

/-! One step of an operation. It is one move on the pool, and the operation goes on in step: with the
lock it asked for, the page it pinned, or the edit it has made. -/

namespace PagedTables

def Ledger.revise (ledger : Ledger) (owner : TransactionId) (edits : PageId → List Edit) : Ledger :=
  { ledger with pending := Function.update ledger.pending owner edits }

@[simp]
theorem Ledger.pending_revise (ledger : Ledger) (owner : TransactionId)
    (edits : PageId → List Edit) : (ledger.revise owner edits).pending owner = edits :=
  Function.update_self ..

theorem Ledger.revise_eq_self {ledger : Ledger} {owner : TransactionId} {edits : PageId → List Edit}
    (same : ∀ page, edits page = ledger.pending owner page) : ledger.revise owner edits = ledger := by
  obtain rfl : edits = ledger.pending owner := funext same
  simp [revise]

namespace Progress

/-- The edits that stand when an operation goes on, or ends, like this. -/
def halfway (call : Call) (page : PageId) : Progress → List Edit
  | running task => task.halfway call page
  | finished (.modified pages) =>
    call.edit?.toList.flatMap fun edit => List.replicate (pages.count page) edit
  | finished _ => []

def Fits (start : Disk) (ledger : Ledger) (pool : Pool) (call : Call) (owner : TransactionId) :
    Progress → Prop
  | running task => task.owner = owner ∧ task.Fits start ledger pool call
  | finished (.guarded guard) => pool.locks.table.Holds owner guard.page .shared
  | finished _ => True

end Progress

namespace Task

theorem halfway_access {call : Call} {page : PageId} {access : Access} :
    (Task.access access).halfway call page =
      if access.purpose = .mark ∧ access.page = page then call.edit?.toList else [] := by
  obtain ⟨owner, place, purpose, phase⟩ := access
  cases purpose <;> simp [halfway, marks]

theorem halfway_phase (call : Call) (page : PageId) (access : Access) (phase : Phase) :
    (Task.access { access with phase }).halfway call page =
      (Task.access access).halfway call page := by
  obtain ⟨owner, place, purpose, _⟩ := access
  cases purpose <;> rfl

structure Ready (start : Disk) (ledger : Ledger) (pool : Pool) (call : Call)
    (made : PageId → List Edit) (task : Task) : Prop where
  sound : pool.Sound start
  balanced : ∀ page, pool.Balanced start ledger page
  fits : task.Fits start ledger pool call
  unwritten : ∀ page, ledger.written task.owner page = []
  pending : ∀ page, ledger.pending task.owner page = made page ++ task.halfway call page

structure Moved (start : Disk) (ledger : Ledger) (pool : Pool) (call : Call)
    (made : PageId → List Edit) (owner : TransactionId) (result : Pool × Progress) : Prop where
  move : pool.Move start owner ledger
    (ledger.revise owner fun page => made page ++ result.2.halfway call page) result.1
  keeps : ∀ page mode, pool.locks.table.Holds owner page mode →
    result.1.locks.table.Holds owner page mode
  appends : ∀ page, ∃ edits,
    made page ++ result.2.halfway call page = ledger.pending owner page ++ edits
  fits : result.2.Fits start
    (ledger.revise owner fun page => made page ++ result.2.halfway call page) result.1 call owner

variable {start : Disk} {ledger : Ledger} {pool later : Pool} {call : Call}
  {made : PageId → List Edit} {task : Task} {progress : Progress}

theorem Ready.moved (ready : task.Ready start ledger pool call made)
    (move : pool.Move start task.owner ledger ledger later)
    (keeps : ∀ page mode, pool.locks.table.Holds task.owner page mode →
      later.locks.table.Holds task.owner page mode)
    (same : ∀ page, progress.halfway call page = task.halfway call page)
    (fits : progress.Fits start ledger later call task.owner) :
    Moved start ledger pool call made task.owner (later, progress) := by
  have kept : ledger.revise task.owner (fun page => made page ++ progress.halfway call page) =
      ledger := Ledger.revise_eq_self fun page => by rw [same, ready.pending]
  refine ⟨?_, keeps, fun page => ⟨[], ?_⟩, ?_⟩
  · rw [kept]
    exact move
  · rw [same, ready.pending, List.append_nil]
  · rw [kept]
    exact fits

theorem Ready.still (ready : task.Ready start ledger pool call made)
    (same : ∀ page, progress.halfway call page = task.halfway call page)
    (fits : progress.Fits start ledger pool call task.owner) :
    Moved start ledger pool call made task.owner (pool, progress) :=
  ready.moved (Pool.move_relock ready.sound ready.balanced (.of_same rfl rfl) pool.stats)
    (fun _ _ => id) same fits

theorem Ready.stays (ready : task.Ready start ledger pool call made) :
    Moved start ledger pool call made task.owner (pool, .running task) :=
  ready.still (fun _ => rfl) ⟨rfl, ready.fits⟩

end Task

namespace Access

variable {start : Disk} {ledger : Ledger} {pool : Pool} {call : Call}
  {made : PageId → List Edit} {access : Access}

theorem halfway_failed (failure : Failure) (page : PageId) (purpose : Purpose) :
    (Progress.finished (purpose.failed failure)).halfway call page = [] := by
  cases purpose <;> rfl

theorem fits_failed (failure : Failure) (owner : TransactionId) (purpose : Purpose) :
    (Progress.finished (purpose.failed failure)).Fits start ledger pool call owner := by
  cases purpose <;> exact trivial

theorem answered_eq (wanted : ∀ mode, access.purpose ≠ .lock mode) (pool : Pool)
    (answer : LockAnswer) :
    access.answered pool answer =
      match answer with
      | .granted => (pool, .running (.access { access with phase := .pin }))
      | .waiting => (pool, .running (.access { access with phase := .wait }))
      | .deadlock =>
        (pool.count .deadlocks,
          .finished (access.purpose.failed (.error (.deadlock access.owner access.page))))
      | .timedOut =>
        (pool, .finished (access.purpose.failed
          (.error (.lockTimeout access.owner access.page)))) := by
  obtain ⟨owner, page, purpose, phase⟩ := access
  cases purpose with
  | lock mode => exact absurd rfl (wanted mode)
  | guard mode => cases answer <;> rfl
  | place job stop => cases answer <;> rfl
  | claim job => cases answer <;> rfl
  | remove tuple remarked => cases answer <;> rfl
  | mark => cases answer <;> rfl
  | visit cursor toEnd => cases answer <;> rfl

theorem moved_answered (ready : (Task.access access).Ready start ledger pool call made)
    {locks : LockManager} {answer : LockAnswer}
    (further : pool.locks.table.Extends locks.table)
    (granted : answer = .granted → locks.table.Holds access.owner access.page access.purpose.mode)
    (again : access.purpose = .mark → answer = .granted ∧ access.phase = .ask) :
    Task.Moved start ledger pool call made access.owner
      (access.answered { pool with locks } answer) := by
  have fits : access.Fits start ledger pool call := ready.fits
  have relock : ∀ stats, Pool.Move start access.owner ledger ledger pool
      { pool with locks, stats } :=
    fun stats => Pool.move_relock ready.sound ready.balanced further stats
  have purpose : ∀ stats, access.purpose.Fits { pool with locks, stats } call access.owner :=
    fun stats => fits.purpose.move (relock stats)
  have wanted : ∀ mode, access.purpose ≠ .lock mode := by
    intro mode lock
    have none := fits.purpose
    rw [lock] at none
    exact none
  -- A page to be marked once more is locked already; for any other, no edit has been made.
  have plain : ∀ failure page, answer ≠ .granted →
      (Progress.finished (access.purpose.failed failure)).halfway call page =
        (Task.access access).halfway call page := by
    intro failure page other
    rw [halfway_failed, Task.halfway_access, if_neg fun both => other (again both.1).1]
  rw [answered_eq wanted]
  cases answer with
  | granted =>
    refine ready.moved (relock pool.stats) (fun _ _ => further.holds)
      (fun page => Task.halfway_phase call page access .pin) ⟨rfl, ?_⟩
    refine ⟨purpose pool.stats, fun _ => granted rfl, fun stay phase => (by cases phase),
      fun mark => ⟨by simp, fun _ resident present => ?_⟩⟩
    exact (fits.marking mark).2 (.inl (again mark).2) resident present
  | waiting =>
    refine ready.moved (relock pool.stats) (fun _ _ => further.holds)
      (fun page => Task.halfway_phase call page access .wait) ⟨rfl, ?_⟩
    refine ⟨purpose pool.stats, fun phase => (by cases phase), fun stay phase => (by cases phase),
      fun mark => ?_⟩
    cases (again mark).1
  | deadlock =>
    exact ready.moved (relock _) (fun _ _ => further.holds) (fun page => plain _ page (by simp))
      (fits_failed _ _ _)
  | timedOut =>
    exact ready.moved (relock pool.stats) (fun _ _ => further.holds)
      (fun page => plain _ page (by simp)) (fits_failed _ _ _)

theorem edited (ready : (Task.access access).Ready start ledger pool call made)
    (mark : access.purpose = .mark) : ledger.pending access.owner access.page ≠ [] := by
  have fits : access.Fits start ledger pool call := ready.fits
  have edit := fits.purpose
  rw [mark] at edit
  obtain ⟨edit, found⟩ := Option.isSome_iff_exists.mp edit
  have pending : ledger.pending access.owner access.page = _ := ready.pending access.page
  rw [pending, Task.halfway_access, if_pos ⟨mark, rfl⟩, found]
  simp

theorem moved_request (ready : (Task.access access).Ready start ledger pool call made)
    (asking : access.purpose = .mark → access.phase = .ask) :
    Task.Moved start ledger pool call made access.owner (access.request pool) := by
  refine moved_answered ready (LockManager.extends_acquire _ _ _ _) LockManager.holds_acquire
    fun mark => ⟨?_, asking mark⟩
  have holds := (ready.balanced access.page).locked access.owner (.inl (edited ready mark))
  rw [mark]
  exact LockManager.acquire_of_exclusive ready.sound.valid holds

theorem moved_expire (ready : (Task.access access).Ready start ledger pool call made)
    (waiting : access.phase = .wait) :
    Task.Moved start ledger pool call made access.owner (access.expire pool) := by
  refine moved_answered ready (LockManager.extends_expire _ _ _ _) LockManager.holds_expire
    fun mark => ?_
  have fits : access.Fits start ledger pool call := ready.fits
  exact absurd waiting (fits.marking mark).1

theorem moved_pin (ready : (Task.access access).Ready start ledger pool call made)
    (phase : access.phase = .pin) :
    Task.Moved start ledger pool call made access.owner (access.pin pool) := by
  have fits : access.Fits start ledger pool call := ready.fits
  have holds := fits.pinning phase
  have serves := pool.serves_pin access.page
  have move := Pool.move_serve ready.sound ready.balanced serves holds.shared
  have keeps : ∀ page mode, pool.locks.table.Holds access.owner page mode →
      (pool.pin access.page).1.locks.table.Holds access.owner page mode :=
    fun _ _ kept => serves.locks.symm ▸ kept
  -- The page of an edit is in the cache, with room for one user more.
  have again : access.purpose = .mark → ∃ stay, (pool.pin access.page).2 = .ok stay := by
    intro mark
    obtain ⟨heap, here, _⟩ := (ready.balanced access.page).cached access.owner (edited ready mark)
    obtain ⟨resident, present, _⟩ := Option.map_eq_some_iff.mp here
    exact ⟨_, Pool.pin_of_cached present ((fits.marking mark).2 (.inr phase) resident present)⟩
  have found := fun stay (pinned : (pool.pin access.page).2 = .ok stay) => Pool.of_pin_ok pinned
  unfold pin
  generalize pool.pin access.page = result at move keeps again found ⊢
  obtain ⟨later, answer⟩ := result
  cases answer with
  | error failure =>
    have other : access.purpose ≠ .mark := fun mark => by
      obtain ⟨stay, pinned⟩ := again mark
      cases pinned
    refine ready.moved move keeps (fun page => ?_) (fits_failed _ _ _)
    rw [halfway_failed, Task.halfway_access, if_neg fun both => other both.1]
  | ok stay =>
    obtain ⟨resident, present, stays, pinned⟩ := found stay rfl
    refine ready.moved move keeps (fun page => Task.halfway_phase call page access (.use stay))
      ⟨rfl, ?_⟩
    refine ⟨fits.purpose.move move, fun phase => (by cases phase), fun other phase => ?_,
      fun mark => ⟨by simp, fun early => by simp at early⟩⟩
    cases phase
    obtain ⟨file, housed⟩ := move.sound.housed access.page resident present
    refine ⟨keeps _ _ holds, fun _ => ⟨resident, present, stays, pinned⟩, file, housed.table, ?_⟩
    intro gone member same
    exact absurd (same.trans stays.symm)
      (move.sound.stays.apart access.page resident present gone member)

end Access
end PagedTables
