import PagedTables.Proofs.Pool.Alike
import PagedTables.Proofs.Storage.Unread

/-! A writer on its way to a page. It gains locks, and pages are served to it, but until it has the page
no file and no change in the cache is touched; and once it has changed the page, nothing stops it from
marking the page again. -/

namespace PagedTables

def Failure.isFull : Failure → Bool
  | error (.pageFull _) => true
  | _ => false

theorem Failure.Unread.not_full {page : PageId} {failure : Failure} (unread : failure.Unread page) :
    failure.isFull = false := by
  cases unread <;> rfl

theorem HeapFile.not_full_of_appendBlank {file : HeapFile} {disk : Disk} {failure : Failure}
    (h : file.appendBlank disk = .error failure) : failure.isFull = false := by
  simp only [appendBlank, place, bind, Except.bind] at h
  split at h
  · next other placed =>
    cases h
    split at placed
    · next product =>
      cases placed
      obtain ⟨cause, rfl⟩ := fault_of_mulSized product
      rfl
    · split at placed <;> cases placed
      rfl
  · cases h

namespace Pool

variable {start : Disk} {pool later last : Pool} {page : PageId} {owner : TransactionId}
  {file : HeapFile} {failure : Failure}

theorem not_full_of_pin (h : (pool.pin page).2 = .error failure) : failure.isFull = false := by
  have exhausted := fun {roomy : Pool} => @exhausted_of_makeRoom roomy failure
  unfold pin at h
  cases present : pool.cache.frames[page]? with
  | some resident =>
    by_cases full : resident.frame.pins + 1 = 0
    · simp only [present, Frame.pin, full, ↓reduceIte] at h
      cases h
      rfl
    · simp only [present, Frame.pin, full, ↓reduceIte] at h
      cases h
  | none =>
    simp only [present] at h
    split at h
    · next other unread =>
      cases h
      have unread : (pool.count .misses).readPage page = .error failure := unread
      exact (unread_of_readPage unread).not_full
    · split at h
      · next roomy other made =>
        cases h
        have homeless := exhausted (congrArg Prod.snd made)
        cases failure with
        | fault cause => rfl
        | error cause => cases cause <;> first | rfl | cases homeless
      · cases h

/-- A pool whose files and whose changes in the cache are as they were. -/
structure Intact (pool later : Pool) : Prop where
  disk : later.disk = pool.disk
  tables : later.tables = pool.tables
  locks : pool.locks.table.Extends later.locks.table
  changed : ∀ page, later.changed? page = pool.changed? page

theorem Intact.of_alike (alike : pool.Alike later) : pool.Intact later :=
  ⟨alike.disk.symm, alike.tables.symm, .of_same (by rw [alike.locks]) (by rw [alike.locks]),
    fun page => (alike.changed page).symm⟩

theorem Intact.refl (pool : Pool) : pool.Intact pool := .of_alike (.refl pool)

theorem Intact.trans (h : pool.Intact later) (h' : later.Intact last) : pool.Intact last :=
  ⟨h'.disk.trans h.disk, h'.tables.trans h.tables, h.locks.trans h'.locks,
    fun page => (h'.changed page).trans (h.changed page)⟩

theorem intact_relocked {locks : LockManager} (further : pool.locks.table.Extends locks.table)
    (stats : Statistics) : pool.Intact { pool with locks, stats } :=
  ⟨rfl, rfl, further, fun _ => rfl⟩

theorem intact_replaces {before after : Resident} {cache : Cache}
    (present : pool.cache.frames[page]? = some before)
    (h : Cache.Replaces page after pool.cache cache)
    (same : after.frame.page = before.frame.page) : pool.Intact { pool with cache } := by
  refine ⟨rfl, rfl, .of_same rfl rfl, fun other => ?_⟩
  by_cases here : other = page
  · subst here
    have now : ({ pool with cache } : Pool).cache.frames[other]? = some after := h.cached
    rw [changed?_of_cached present, changed?_of_cached now, same]
  · exact congrArg (fun found : Option Resident =>
      (found.map fun resident => resident.frame.page).filter HeapPage.isDirty) (h.elsewhere here)

theorem Intact.extended (h : pool.Intact later) (disk : Disk) :
    Intact { pool with disk } { later with disk } :=
  ⟨rfl, h.tables, h.locks, h.changed⟩

theorem Intact.readPage (h : pool.Intact later) (page : PageId) :
    later.readPage page = pool.readPage page := by
  simp only [Pool.readPage, Pool.file, h.tables, h.disk]

theorem Intact.shown (h : pool.Intact later) (page : PageId) :
    later.shown page = pool.shown page := by
  rw [Pool.shown, Pool.shown, h.changed, h.readPage]

end Pool

namespace Access

variable {access : Access} {pool later : Pool} {owner : TransactionId} {page : PageId}

def Ready (access : Access) (pool : Pool) : Prop :=
  match access.phase with
  | .ask | .wait => True
  | .pin => pool.locks.table.Holds access.owner access.page .exclusive
  | .use stay => pool.locks.table.Holds access.owner access.page .exclusive ∧
      ∃ resident, pool.cache.frames[access.page]? = some resident ∧ resident.stay = stay ∧
        resident.frame.pins ≠ 0

/-- What comes of a step of a writer: it is nearer to its page, it fails, or it has used the page. -/
inductive Comes (access : Access) (pool : Pool) : Pool × Progress → Prop
  | goes (phase : Phase) (later : Pool) (intact : pool.Intact later)
      (ready : Ready { access with phase } later) :
      Comes access pool (later, .running (.access { access with phase }))
  | fails (later : Pool) (intact : pool.Intact later) (failure : Failure)
      (other : failure.isFull = false) : Comes access pool (later, .failed failure)
  | uses (holds : pool.locks.table.Holds access.owner access.page .exclusive) (resident : Resident)
      (present : pool.cache.frames[access.page]? = some resident)
      (pinned : resident.frame.pins ≠ 0) (cache : Cache) (frame : Frame)
      (replaces : Cache.Replaces access.page ⟨resident.stay, frame⟩ pool.cache cache)
      (result : frame.page = (access.result resident.frame.page).1)
      (pins : frame.pins = resident.frame.pins - 1) (free : frame.latch = .shared 0) :
      Comes access pool ({ pool with cache }, (access.result resident.frame.page).2)

theorem mode_of_isWrite {purpose : Purpose} (writes : purpose.isWrite = true) :
    purpose.mode = .exclusive := by
  cases purpose <;> first | rfl | cases writes

theorem comes_answered (writes : access.purpose.isWrite = true) {locks : LockManager}
    {answer : LockAnswer} (further : pool.locks.table.Extends locks.table)
    (granted : answer = .granted → locks.table.Holds access.owner access.page .exclusive) :
    Comes access pool (access.answered { pool with locks } answer) := by
  obtain ⟨owner, page, purpose, phase⟩ := access
  have fails : ∀ (stats : Statistics) (failure : Failure), failure.isFull = false →
      Comes ⟨owner, page, purpose, phase⟩ pool ({ pool with locks, stats }, .failed failure) :=
    fun stats failure other => .fails _ (Pool.intact_relocked further stats) failure other
  have goes : ∀ phase' : Phase, Ready ⟨owner, page, purpose, phase'⟩ { pool with locks } →
      Comes ⟨owner, page, purpose, phase⟩ pool
        ({ pool with locks }, .running (.access ⟨owner, page, purpose, phase'⟩)) :=
    fun phase' ready => .goes phase' _ (Pool.intact_relocked further pool.stats) ready
  cases answer with
  | waiting => exact goes .wait trivial
  | granted =>
    have holds := granted rfl
    cases purpose with
    | place job stop | claim job | remove tuple remarked | mark => exact goes .pin holds
    | lock mode | guard mode | visit cursor toEnd => cases writes
  | deadlock | timedOut =>
    cases purpose with
    | place job stop | claim job | remove tuple remarked | mark => exact fails _ _ rfl
    | lock mode | guard mode | visit cursor toEnd => cases writes

theorem comes_pin (writes : access.purpose.isWrite = true) (phase : access.phase = .pin)
    (ready : access.Ready pool) : Comes access pool (access.pin pool) := by
  obtain ⟨owner, page, purpose, _⟩ := access
  obtain rfl := phase
  have alike := (pool.serves_pin page).alike
  have other := @Pool.not_full_of_pin pool page
  have found := fun stay (pinned : (pool.pin page).2 = .ok stay) => Pool.of_pin_ok pinned
  simp only [pin]
  generalize pool.pin page = result at alike other found ⊢
  obtain ⟨later, answer⟩ := result
  have intact := Pool.Intact.of_alike alike
  cases answer with
  | error failure =>
    have fails : Comes ⟨owner, page, purpose, .pin⟩ pool (later, .failed failure) :=
      .fails later intact failure (other rfl)
    cases purpose with
    | place job stop | claim job | remove tuple remarked | mark => exact fails
    | lock mode | guard mode | visit cursor toEnd => cases writes
  | ok stay =>
    obtain ⟨resident, present, stays, pinned⟩ := found stay rfl
    exact .goes (.use stay) later intact ⟨intact.locks.holds ready, resident, present, stays, pinned⟩

theorem comes_use (writes : access.purpose.isWrite = true) {stay : Nat}
    (phase : access.phase = .use stay) (ready : access.Ready pool) :
    Comes access pool (access.use pool stay) := by
  obtain ⟨owner, page, purpose, _⟩ := access
  obtain rfl := phase
  obtain ⟨holds, resident, present, rfl, pinned⟩ := ready
  have works : ∀ mode, purpose ≠ .guard mode := by
    rintro mode rfl
    cases writes
  rcases use_exclusive ⟨owner, page, purpose, .use resident.stay⟩ present pinned
      (mode_of_isWrite writes) works with same | ⟨cache, frame, used, replaces, _, result, pins, free⟩
  · rw [same]
    exact .goes (.use resident.stay) pool (.refl pool) ⟨holds, resident, present, rfl, pinned⟩
  · rw [used]
    exact .uses holds resident present pinned cache frame replaces result pins free

theorem comes_step (writes : access.purpose.isWrite = true) (ready : access.Ready pool) :
    Comes access pool (access.step pool) := by
  have mode := mode_of_isWrite writes
  have asked : Comes access pool (access.request pool) := by
    refine comes_answered writes (LockManager.extends_acquire _ _ _ _) fun answer => ?_
    exact mode ▸ LockManager.holds_acquire answer
  unfold step
  cases phase : access.phase with
  | ask => exact asked
  | wait =>
    simp only
    split
    · exact asked
    · refine .goes access.phase pool (.refl pool) ?_
      rwa [show ({ access with phase := access.phase } : Access) = access from rfl]
  | pin => exact comes_pin writes phase ready
  | use stay => exact comes_use writes phase ready

theorem comes_expire (writes : access.purpose.isWrite = true) :
    Comes access pool (access.expire pool) := by
  refine comes_answered writes (LockManager.extends_expire _ _ _ _) fun answer => ?_
  exact mode_of_isWrite writes ▸ LockManager.holds_expire answer

end Access

def Phase.Fits (resident : Resident) : Phase → Prop
  | ask | pin => resident.frame.pins + 1 ≠ 0
  | use stay => resident.stay = stay ∧ resident.frame.pins ≠ 0
  | wait => False

/-- A page that its writer has changed under its lock, for the writer to mark again. -/
structure Pool.Sure (pool : Pool) (owner : TransactionId) (page : PageId) (phase : Phase) : Prop where
  valid : pool.locks.table.Valid
  holds : pool.locks.table.Holds owner page .exclusive
  cached : ∃ resident, pool.cache.frames[page]? = some resident ∧ resident.frame.page.id = page ∧
    resident.frame.page.dirtiedBy = some owner ∧ resident.frame.latch = .shared 0 ∧
    phase.Fits resident

inductive Pool.Remarks (pool : Pool) (owner : TransactionId) (page : PageId) : Progress → Prop
  | marks (phase : Phase) (sure : pool.Sure owner page phase) :
      Remarks pool owner page (.running (.access ⟨owner, page, .mark, phase⟩))
  | done : Remarks pool owner page (.finished (.modified [page]))

section Remark

variable {pool : Pool} {owner : TransactionId} {page : PageId} {stay : Nat}

theorem Pool.Sure.ask (sure : pool.Sure owner page .ask) : ∃ later, pool.Intact later ∧
    Access.step ⟨owner, page, .mark, .ask⟩ pool =
      (later, .running (.access ⟨owner, page, .mark, .pin⟩)) ∧ later.Sure owner page .pin := by
  obtain ⟨valid, holds, cached⟩ := sure
  have further := LockManager.extends_acquire pool.locks page owner .exclusive
  refine ⟨{ pool with locks := (pool.locks.acquire page owner .exclusive).1 },
    intact_relocked further pool.stats, ?_, further.valid valid, further.holds holds, cached⟩
  have granted := LockManager.acquire_of_exclusive valid holds
  simp only [Access.step, Access.request, Purpose.mode, granted, Access.answered]

theorem Pool.Sure.pin (sure : pool.Sure owner page .pin) : ∃ later stay, pool.Intact later ∧
    Access.step ⟨owner, page, .mark, .pin⟩ pool =
      (later, .running (.access ⟨owner, page, .mark, .use stay⟩)) ∧
    later.Sure owner page (.use stay) := by
  obtain ⟨valid, holds, resident, present, named, dirty, free, room⟩ := sure
  have alike := (pool.serves_pin page).alike
  have pins := pool.pin_pins page
  simp only [Access.step, Access.pin]
  generalize pool.pin page = result at alike pins ⊢
  have intact := Intact.of_alike alike
  cases pins with
  | hit found here _ stats =>
    obtain rfl := Option.some.inj (here.symm.trans present)
    have replaces := Cache.replaces_update present
      { found.frame with pins := found.frame.pins + 1 }
    exact ⟨_, found.stay, intact, rfl, valid, holds, _, replaces.cached, named, dirty, free, rfl, room⟩
  | crowded found here full failure =>
    obtain rfl := Option.some.inj (here.symm.trans present)
    exact absurd full room
  | unread absent stats failure unread => cases absent.symm.trans present
  | homeless absent stats failure exhausted => cases absent.symm.trans present
  | loaded absent stats heap read roomy made => cases absent.symm.trans present

theorem Pool.Sure.use (sure : pool.Sure owner page (.use stay)) : ∃ later, pool.Intact later ∧
    Access.step ⟨owner, page, .mark, .use stay⟩ pool = (later, .finished (.modified [page])) := by
  obtain ⟨valid, holds, resident, present, named, dirty, free, rfl, pinned⟩ := sure
  obtain ⟨latch, first, latched, latches, _⟩ := latch_free
    (Access.guard ⟨owner, page, .mark, .use resident.stay⟩ resident.stay) present rfl free
  obtain ⟨cache, used, replaces⟩ := Access.use_cached ⟨owner, page, .mark, .use resident.stay⟩ pinned
    (fun mode => by simp) latched latches
  -- The mark is there already.
  have same : resident.frame.page.markDirty (some owner) = resident.frame.page := by
    rw [← dirty]
    rfl
  refine ⟨{ pool with cache }, intact_replaces present replaces ?_, ?_⟩
  · refine Eq.trans ?_ same
    unfold Frame.unlatch
    split <;> rfl
  · refine used.trans ?_
    rw [← named]
    rfl

theorem Pool.Remarks.step {task : Task} (remarks : pool.Remarks owner page (.running task)) :
    task.isWaiting = false ∧ pool.Intact (task.step pool).1 ∧
      (task.step pool).1.Remarks owner page (task.step pool).2 := by
  cases remarks with
  | marks phase sure =>
    show _ ∧ pool.Intact (Access.step ⟨owner, page, .mark, phase⟩ pool).1 ∧
      (Access.step ⟨owner, page, .mark, phase⟩ pool).1.Remarks owner page
        (Access.step ⟨owner, page, .mark, phase⟩ pool).2
    cases phase with
    | wait => exact sure.cached.elim fun _ cached => cached.2.2.2.2.elim
    | ask =>
      obtain ⟨later, intact, same, next⟩ := sure.ask
      rw [same]
      exact ⟨rfl, intact, .marks .pin next⟩
    | pin =>
      obtain ⟨later, stay, intact, same, next⟩ := sure.pin
      rw [same]
      exact ⟨rfl, intact, .marks (.use stay) next⟩
    | use stay =>
      obtain ⟨later, intact, same⟩ := sure.use
      rw [same]
      exact ⟨rfl, intact, .done⟩

end Remark
end PagedTables
