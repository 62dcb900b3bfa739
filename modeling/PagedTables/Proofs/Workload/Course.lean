import PagedTables.Proofs.Pool.Flush
import PagedTables.Proofs.Workload.Run

/-! Transactions at work where nothing is ruled out: writes may fail, a page may be kept in use when its
user ends, and pages may be written, dropped and unlocked behind everybody's back. -/

namespace PagedTables

namespace Pool

variable {pool : Pool} {page : PageId}

theorem settlePage_elsewhere (commit : Bool) {other : PageId} (apart : other ≠ page) :
    (pool.settlePage commit page).1.cache.frames[other]? = pool.cache.frames[other]? := by
  cases commit with
  | true =>
    have flushes := pool.flushPage_flushes page
    simp only [settlePage, if_true]
    generalize pool.flushPage page = result at flushes ⊢
    cases flushes with
    | absent absent => rfl
    | clean before found clean => rfl
    | failed failure => rfl
    | written before found writer dirty file registered disk writes cache replaces stats =>
      exact replaces.elsewhere apart
  | false =>
    have discards := pool.discardPage_discards page
    show (pool.discardPage page).cache.frames[other]? = _
    generalize pool.discardPage page = later at discards ⊢
    cases discards with
    | absent absent => rfl
    | dropped cache drops stats =>
      obtain ⟨_, _, frames, _⟩ := Cache.of_discard drops
      exact (frames other).trans (if_neg apart)

theorem settlePage_locks (pool : Pool) (commit : Bool) (page : PageId) :
    (pool.settlePage commit page).1.locks = pool.locks := by
  cases commit with
  | false => exact pool.discardPage_locks page
  | true => exact pool.flushPage_locks page

theorem sameTables_settlePage (pool : Pool) (commit : Bool) (page : PageId) :
    pool.SameTables (pool.settlePage commit page).1 := by
  cases commit with
  | true => exact pool.sameTables_flushPage page
  | false => exact pool.sameTables_discardPage page

theorem clean_of_settlePage {commit : Bool} {resident : Resident}
    (done : (pool.settlePage commit page).2.isOk = true)
    (present : (pool.settlePage commit page).1.cache.frames[page]? = some resident) :
    resident.frame.page.dirtiedBy = none := by
  cases commit with
  | true =>
    have flushes := pool.flushPage_flushes page
    simp only [settlePage, if_true] at done present
    generalize pool.flushPage page = result at flushes done present
    cases flushes with
    | absent absent =>
      rw [absent] at present
      cases present
    | clean before found clean =>
      obtain rfl : before = resident := Option.some.inj (found.symm.trans present)
      exact clean
    | failed failure => simp [Except.isOk, Except.toBool] at done
    | written before found writer dirty file registered disk writes cache replaces stats =>
      obtain rfl := Option.some.inj (replaces.cached.symm.trans present)
      rfl
  | false =>
    have discards := pool.discardPage_discards page
    have present : (pool.discardPage page).cache.frames[page]? = some resident := present
    generalize pool.discardPage page = later at discards present
    cases discards with
    | absent absent =>
      rw [absent] at present
      cases present
    | dropped cache drops stats =>
      obtain ⟨_, _, frames, _⟩ := Cache.of_discard drops
      rw [frames, if_pos rfl] at present
      cases present

end Pool

/-- What can be done to a pool's pages past the transactions that use them. -/
inductive Hook
  | flushPage (page : PageId)
  | flushHeld (owner : TransactionId)
  | flushAll
  | discardPage (page : PageId)
  | releasePage (owner : TransactionId) (page : PageId)
deriving DecidableEq

def Hook.run (pool : Pool) : Hook → Pool × Except Failure Unit
  | flushPage page => pool.flushPage page
  | flushHeld owner => pool.flushHeld owner
  | flushAll => pool.flushAll
  | discardPage page => (pool.discardPage page, .ok ())
  | releasePage owner page => (pool.releasePage owner page, .ok ())

def Hook.isFree (pool : Pool) : Hook → Bool
  | flushPage page => pool.canFlush page
  | flushHeld owner => (pool.heldPages owner).all pool.canFlush
  | flushAll => pool.cache.frames.keys.all pool.canFlush
  | discardPage _ | releasePage _ _ => true

theorem Hook.run_keeps (kept : Pool → Prop)
    (flushes : ∀ (pool : Pool) (page : PageId), kept pool → kept (pool.flushPage page).1)
    (discards : ∀ (pool : Pool) (page : PageId), kept pool → kept (pool.discardPage page))
    (releases : ∀ (pool : Pool) (owner : TransactionId) (page : PageId),
      kept pool → kept (pool.releasePage owner page))
    (hook : Hook) {pool : Pool} (before : kept pool) : kept (hook.run pool).1 := by
  have each := fun pages => Pool.flushEach_keeps kept flushes pages before
  cases hook with
  | flushPage page => exact flushes pool page before
  | flushHeld owner => exact each (pool.heldPages owner)
  | flushAll => exact each pool.cache.frames.keys
  | discardPage page => exact discards pool page before
  | releasePage owner page => exact releases pool owner page before

theorem Hook.sameTables (pool : Pool) (hook : Hook) : pool.SameTables (hook.run pool).1 :=
  hook.run_keeps pool.SameTables (fun later page same => same.trans (later.sameTables_flushPage page))
    (fun later page same => same.trans (later.sameTables_discardPage page))
    (fun _ _ _ same => ⟨same.tables, same.nextTable⟩) ⟨rfl, rfl⟩

inductive Step
  | act (action : Action)
  | hook (hook : Hook)
deriving DecidableEq

/-- The transaction that takes an action. New tables are nobody's. -/
def Action.owner? : Action → Option TransactionId
  | create _ _ | attach _ _ => none
  | call owner _ | advance owner | expire owner | drop owner _ | finish owner _ | settle owner =>
    some owner

namespace Workload

def isFree (work : Workload) (owner : TransactionId) : Bool :=
  match work.stage owner with
  | .ending true (page :: _) => work.pool.canFlush page
  | _ => true

/-- Which steps there are at all. What needs a latch that a user has waits until the user lets go. -/
def Possible (work : Workload) : Step → Prop
  | .act (.create _ _) | .act (.attach _ _) => True
  | .hook hook => hook.isFree work.pool
  | .act (.call owner _) | .act (.finish owner _) => work.stage owner = .idle
  | .act (.advance owner) => (work.stage owner).isWorking
  | .act (.expire owner) => (work.stage owner).isWaiting
  | .act (.drop owner guard) => guard ∈ work.guards owner
  | .act (.settle owner) => (work.stage owner).isEnding ∧ work.isFree owner

/-- A commit that cannot write a page is given up: its transaction goes on, with all its locks. -/
def giveUp (work : Workload) (owner : TransactionId) : Workload :=
  { work with stage := Function.update work.stage owner .idle }

def next (work : Workload) : Step → Workload
  | .act (.settle owner) =>
    if work.canSettle owner then work.after (.settle owner) else work.giveUp owner
  | .act action => work.after action
  | .hook hook => { work with pool := (hook.run work.pool).1 }

def Unhooked : Step → Prop
  | .act _ => True
  | .hook _ => False

def Others (owner : TransactionId) : Step → Prop
  | .act action => action.owner? ≠ some owner
  | .hook _ => False

/-- A file is opened for one table only, and no file is too long for its pages to be numbered. -/
def Filed (work : Workload) : Step → Prop
  | .act (.attach name schema) => work.pool.Unregistered (HeapFile.attach work.pool.disk name
      ⟨work.pool.nextTable⟩ schema work.pool.config.pageSize)
  | .act (.advance _) => work.pool.Bounded
  | _ => True

def Sited (work : Workload) : Step → Prop
  | .act (.attach name schema) => work.pool.Unregistered (HeapFile.attach work.pool.disk name
      ⟨work.pool.nextTable⟩ schema work.pool.config.pageSize)
  | _ => True

def lengthened? (work : Workload) (owner : TransactionId) : Option HeapFile :=
  match work.stage owner with
  | .working _ (.extend _ job) => some job.file
  | _ => none

/-- A file that is made longer has fewer pages than there are page numbers. -/
def Roomed (work : Workload) : Step → Prop
  | .act (.advance owner) => ∀ file ∈ work.lengthened? owner, file.HasNumber work.pool.disk
  | _ => True

inductive Course (allowed : Workload → Step → Prop) (first : Workload) : Workload → Prop
  | start : Course allowed first first
  | step {work : Workload} (step : Step) (course : Course allowed first work)
      (possible : work.Possible step) (kind : allowed work step) : Course allowed first (work.next step)

variable {allowed wider : Workload → Step → Prop} {first work later : Workload}

theorem Course.trans (course : Course allowed first work) (course' : Course allowed work later) :
    Course allowed first later := by
  induction course' with
  | start => exact course
  | step step _ possible kind ih => exact .step step ih possible kind

theorem Course.mono (course : Course allowed first work)
    (h : ∀ work step, allowed work step → wider work step) : Course wider first work := by
  induction course with
  | start => exact .start
  | step step _ possible kind ih => exact .step step ih possible (h _ _ kind)

/-- What a step must not do may be told from what all steps so far have kept. -/
theorem Course.under {invariant : Workload → Prop} (course : Course allowed first work)
    (begins : invariant first)
    (keeps : ∀ work step, invariant work → work.Possible step → wider work step →
      invariant (work.next step))
    (h : ∀ work step, invariant work → allowed work step → wider work step) :
    Course wider first work := by
  have both : Course wider first work ∧ invariant work := by
    induction course with
    | start => exact ⟨.start, begins⟩
    | step step _ possible kind ih =>
      have kind := h _ step ih.2 kind
      exact ⟨.step step ih.1 possible kind, keeps _ step ih.2 possible kind⟩
  exact both.1

instance (work : Workload) : (step : Step) → Decidable (work.Possible step)
  | .act (.create _ _) | .act (.attach _ _) => inferInstanceAs (Decidable True)
  | .hook hook => inferInstanceAs (Decidable (hook.isFree work.pool = true))
  | .act (.call owner _) | .act (.finish owner _) =>
    inferInstanceAs (Decidable (work.stage owner = .idle))
  | .act (.advance owner) => inferInstanceAs (Decidable ((work.stage owner).isWorking = true))
  | .act (.expire owner) => inferInstanceAs (Decidable ((work.stage owner).isWaiting = true))
  | .act (.drop owner guard) => inferInstanceAs (Decidable (guard ∈ work.guards owner))
  | .act (.settle owner) =>
    inferInstanceAs (Decidable ((work.stage owner).isEnding = true ∧ work.isFree owner = true))

instance : DecidablePred Unhooked
  | .act _ => inferInstanceAs (Decidable True)
  | .hook _ => inferInstanceAs (Decidable False)

instance (owner : TransactionId) : DecidablePred (Others owner)
  | .act action => inferInstanceAs (Decidable (action.owner? ≠ some owner))
  | .hook _ => inferInstanceAs (Decidable False)

instance (work : Workload) : (step : Step) → Decidable (work.Filed step)
  | .act (.attach _ _) => inferInstanceAs (Decidable (work.pool.Unregistered _))
  | .act (.advance _) => inferInstanceAs (Decidable work.pool.Bounded)
  | .act (.create _ _) | .act (.call _ _) | .act (.expire _) | .act (.drop _ _) | .act (.finish _ _)
  | .act (.settle _) | .hook _ => inferInstanceAs (Decidable True)

instance (work : Workload) : (step : Step) → Decidable (work.Sited step)
  | .act (.attach _ _) => inferInstanceAs (Decidable (work.pool.Unregistered _))
  | .act (.create _ _) | .act (.advance _) | .act (.call _ _) | .act (.expire _) | .act (.drop _ _)
  | .act (.finish _ _) | .act (.settle _) | .hook _ => inferInstanceAs (Decidable True)

instance (work : Workload) : (step : Step) → Decidable (work.Roomed step)
  | .act (.advance owner) => inferInstanceAs (Decidable (∀ file ∈ work.lengthened? owner, _))
  | .act (.create _ _) | .act (.attach _ _) | .act (.call _ _) | .act (.expire _)
  | .act (.drop _ _) | .act (.finish _ _) | .act (.settle _) | .hook _ =>
    inferInstanceAs (Decidable True)

theorem Filed.sited {work : Workload} {step : Step} (filed : work.Filed step) : work.Sited step := by
  cases step with
  | hook hook => exact trivial
  | act action =>
    cases action with
    | attach name schema => exact filed
    | create name schema | call owner call | advance owner | expire owner | drop owner guard
    | finish owner commit | settle owner => exact trivial

def Takes (allowed : Workload → Step → Prop) [∀ work step, Decidable (allowed work step)] :
    Workload → List Step → Bool
  | _, [] => true
  | work, step :: steps =>
    decide (work.Possible step ∧ allowed work step) && Takes allowed (work.next step) steps

theorem Course.of_takes [∀ work step, Decidable (allowed work step)] (steps : List Step)
    (course : Course allowed first work) (takes : Takes allowed work steps = true) :
    Course allowed first (steps.foldl next work) := by
  induction steps generalizing work with
  | nil => exact course
  | cons step steps ih =>
    simp only [Takes, Bool.and_eq_true, decide_eq_true_eq] at takes
    exact ih (.step step course takes.1.1 takes.1.2) takes.2

end Workload
end PagedTables
