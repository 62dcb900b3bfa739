import PagedTables.Pool.Task
import PagedTables.Proofs.Pool.Serve

/-! A pinned page in use. Reading it changes no page; a writer finds the cached page, and leaves it as
its purpose says. -/

namespace PagedTables

namespace Pool

variable {pool later : Pool} {guard : Guard} {heap : HeapPage}

theorem latch_eq_some (h : pool.latch guard = some later) :
    ∃ resident frame, pool.cache.find? guard.page guard.stay = some resident ∧
      (if guard.writable then resident.frame.latchExclusive else resident.frame.latchShared) =
        some frame ∧
      later = { pool with cache := pool.cache.update guard.page { resident with frame } } := by
  unfold latch at h
  cases found : pool.cache.find? guard.page guard.stay with
  | none => simp [found] at h
  | some resident =>
    refine ⟨resident, ?_⟩
    cases write : guard.writable <;> simp only [found, write] at h ⊢
    · cases latched : resident.frame.latchShared with
      | none => simp [latched] at h
      | some frame => exact ⟨frame, trivial, by simp, by simpa [latched, eq_comm] using h⟩
    · cases latched : resident.frame.latchExclusive with
      | none => simp [latched] at h
      | some frame => exact ⟨frame, trivial, by simp, by simpa [latched, eq_comm] using h⟩

theorem latch_cached (guard : Guard) {resident : Resident}
    (present : pool.cache.frames[guard.page]? = some resident) (stays : resident.stay = guard.stay)
    (writable : guard.writable = true) (h : pool.latch guard = some later) :
    ∃ cache, later = { pool with cache } ∧ Cache.Replaces guard.page
      ⟨resident.stay, { resident.frame with latch := .exclusive }⟩ pool.cache cache := by
  obtain ⟨found, frame, here, latching, rfl⟩ := latch_eq_some h
  obtain rfl : resident = found :=
    Option.some.inj ((Cache.find?_of_cached present).symm.trans (stays ▸ here))
  rw [if_pos writable] at latching
  unfold Frame.latchExclusive at latching
  split at latching
  · cases latching
    exact ⟨_, rfl, Cache.replaces_update present _⟩
  · cases latching

theorem view_cached (guard : Guard) {resident : Resident}
    (present : pool.cache.frames[guard.page]? = some resident)
    (stays : resident.stay = guard.stay) : pool.view guard = some resident.frame.page := by
  rw [view, ← stays, Cache.find?_of_cached present, Option.map_some]

theorem drop_cached (guard : Guard) {resident : Resident}
    (present : pool.cache.frames[guard.page]? = some resident) (stays : resident.stay = guard.stay)
    (pinned : resident.frame.pins ≠ 0) :
    ∃ cache, pool.drop guard = ({ pool with cache }, .ok ()) ∧
      Cache.Replaces guard.page ⟨resident.stay, resident.frame.unpin.1.unlatch⟩ pool.cache cache := by
  have found := Cache.find?_of_cached present
  rw [stays] at found
  refine ⟨_, ?_, Cache.replaces_update present resident.frame.unpin.1.unlatch⟩
  simp only [drop, found, Frame.unpin, pinned, ↓reduceIte, Except.map]

theorem change_drop_cached (guard : Guard) {resident : Resident}
    (present : pool.cache.frames[guard.page]? = some resident) (stays : resident.stay = guard.stay)
    (pinned : resident.frame.pins ≠ 0) (heap : HeapPage) :
    ∃ cache, (pool.change guard heap).drop guard = ({ pool with cache }, .ok ()) ∧
      Cache.Replaces guard.page
        ⟨resident.stay, Frame.unlatch { resident.frame.unpin.1 with page := heap }⟩
        pool.cache cache := by
  have found := Cache.find?_of_cached present
  rw [stays] at found
  have changes := Cache.replaces_update present { resident.frame with page := heap }
  generalize wrote : pool.cache.update guard.page
    ⟨resident.stay, { resident.frame with page := heap }⟩ = between at changes
  have changed : pool.change guard heap = { pool with cache := between } := by
    simp only [change, found, wrote]
  have there : ({ pool with cache := between } : Pool).cache.frames[guard.page]? =
      some ⟨resident.stay, { resident.frame with page := heap }⟩ := changes.cached
  obtain ⟨cache, dropped, drops⟩ := drop_cached guard there stays pinned
  exact ⟨cache, changed ▸ dropped, changes.trans drops⟩

theorem latch_free (guard : Guard) {resident : Resident}
    (present : pool.cache.frames[guard.page]? = some resident) (stays : resident.stay = guard.stay)
    (free : resident.frame.latch = .shared 0) :
    ∃ latch cache, pool.latch guard = some { pool with cache } ∧
      Cache.Replaces guard.page ⟨resident.stay, { resident.frame with latch }⟩ pool.cache cache ∧
      (latch = .shared 1 ∨ latch = .exclusive) := by
  have found := Cache.find?_of_cached present
  rw [stays] at found
  have replaces := fun latch => Cache.replaces_update present { resident.frame with latch }
  obtain ⟨page, stay, writable⟩ := guard
  cases writable with
  | false =>
    refine ⟨.shared 1, _, ?_, replaces (.shared 1), .inl rfl⟩
    simp [latch, found, Frame.latchShared, free]
  | true =>
    refine ⟨.exclusive, _, ?_, replaces .exclusive, .inr rfl⟩
    simp [latch, found, Frame.latchExclusive, free]

theorem visits_latch (h : pool.latch guard = some later) :
    ∃ cache, later = { pool with cache } ∧ Cache.Visits guard.page pool.cache cache := by
  obtain ⟨resident, frame, found, latched, rfl⟩ := latch_eq_some h
  refine ⟨_, rfl, Cache.visits_update found ?_⟩
  split at latched
  · unfold Frame.latchExclusive at latched
    split at latched
    · cases latched
      rfl
    · cases latched
  · unfold Frame.latchShared at latched
    split at latched
    · cases latched
      rfl
    · cases latched

theorem rewrites_change (h : pool.view guard = some heap) (change : HeapPage → HeapPage) :
    ∃ cache, pool.change guard (change heap) = { pool with cache } ∧
      Cache.Rewrites guard.page guard.stay change pool.cache cache := by
  obtain ⟨resident, found, rfl⟩ := Option.map_eq_some_iff.mp h
  simp only [Pool.change, found]
  exact ⟨_, rfl, Cache.rewrites_update found change⟩

theorem visits_drop (pool : Pool) (guard : Guard) :
    ∃ cache, (pool.drop guard).1 = { pool with cache } ∧
      Cache.Visits guard.page pool.cache cache := by
  unfold drop
  cases found : pool.cache.find? guard.page guard.stay with
  | none => exact ⟨pool.cache, rfl, .refl guard.page pool.cache⟩
  | some resident =>
    exact ⟨_, rfl, Cache.visits_update found (Frame.unpin_unlatch_rested _ _)⟩

theorem shows_of_view (h : pool.view guard = some heap) :
    pool.cache.Shows guard.page guard.stay heap := by
  obtain ⟨resident, found, rfl⟩ := Option.map_eq_some_iff.mp h
  exact Cache.shows_of_find? found

end Pool

theorem Insertion.tryPage_cases (job : Insertion) (owner : TransactionId) (heap : HeapPage)
    (full : Progress) :
    (∃ progress, job.tryPage owner heap full = (heap, progress) ∧
      (progress = full ∨ ∃ failure, progress = .failed failure)) ∨
    ∃ after record, heap.insert job.tuple = .ok (after, record) ∧
      job.tryPage owner heap full =
        (after.markDirty (some owner), .changed owner after.id job.remarked) := by
  unfold tryPage
  split
  · exact .inl ⟨full, rfl, .inl rfl⟩
  · cases inserted : heap.insert job.tuple with
    | error failure => exact .inl ⟨_, rfl, .inr ⟨failure, rfl⟩⟩
    | ok result => exact .inr ⟨result.1, result.2, rfl, rfl⟩

/-- A transaction has changed slots of a page, and has marked it. -/
structure HeapPage.Written (owner : TransactionId) (heap later : HeapPage) : Prop where
  mark : later.dirtiedBy = some owner
  id : later.id = heap.id
  schema : later.schema = heap.schema
  layout : later.layout = heap.layout
  sound : heap.Sound → later.Sound

theorem HeapPage.written_markDirty (owner : TransactionId) (heap : HeapPage) :
    heap.Written owner (heap.markDirty (some owner)) :=
  ⟨rfl, rfl, rfl, rfl, fun sound => sound.markDirty (some owner)⟩

theorem HeapPage.written_edited {owner : TransactionId} {heap : HeapPage} (edit : Edit)
    (sound : heap.Sound → (heap.edited edit).Sound) :
    heap.Written owner ((heap.edited edit).markDirty (some owner)) :=
  ⟨rfl, rfl, rfl, rfl, fun before => (sound before).markDirty (some owner)⟩

def Purpose.isWrite : Purpose → Bool
  | place _ _ | claim _ | remove _ _ | mark => true
  | lock _ | guard _ | visit _ _ => false

theorem Purpose.act_of_read {purpose : Purpose} (reads : purpose.isWrite = false)
    (owner : TransactionId) (heap : HeapPage) : (purpose.act owner heap).1 = heap := by
  cases purpose with
  | lock mode => rfl
  | guard mode => rfl
  | visit cursor toEnd => rfl
  | place job stop => cases reads
  | claim job => cases reads
  | remove tuple remarked => cases reads
  | mark => cases reads

theorem Purpose.act_cases (owner : TransactionId) (heap : HeapPage) (purpose : Purpose) :
    (purpose.act owner heap).1 = heap ∨
      purpose.mode = .exclusive ∧ heap.Written owner (purpose.act owner heap).1 := by
  have placed : ∀ (job : Insertion) (full : Progress),
      (job.tryPage owner heap full).1 = heap ∨
        heap.Written owner (job.tryPage owner heap full).1 := by
    intro job full
    rcases job.tryPage_cases owner heap full with ⟨progress, same, _⟩ | ⟨after, record, made, same⟩
    · rw [same]
      exact .inl rfl
    · have sound := fun sound : heap.Sound => sound.insert made
      obtain ⟨_, rfl⟩ := HeapPage.insert_eq made
      rw [same]
      exact .inr (HeapPage.written_edited _ sound)
  cases purpose with
  | lock mode => exact .inl rfl
  | guard mode => exact .inl rfl
  | visit cursor toEnd => exact .inl rfl
  | mark => exact .inr ⟨rfl, heap.written_markDirty owner⟩
  | place job stop => exact (placed job _).imp id fun written => ⟨rfl, written⟩
  | claim job => exact (placed job _).imp id fun written => ⟨rfl, written⟩
  | remove tuple remarked =>
    simp only [act]
    cases deleted : heap.delete tuple with
    | error failure => exact .inl rfl
    | ok after =>
      have sound := fun sound : heap.Sound => sound.delete deleted
      obtain ⟨record, _, _, rfl⟩ := HeapPage.delete_eq deleted
      exact .inr ⟨rfl, HeapPage.written_edited _ sound⟩

def Purpose.job? : Purpose → Option Insertion
  | place job _ | claim job => some job
  | _ => none

inductive Purpose.Leads (owner : TransactionId) (heap : HeapPage) : Purpose → Progress → Prop
  | ended (purpose : Purpose) (finish : Finish)
      (closes : finish = .locked ∨ (∃ failure, finish = .failed failure) ∨
        finish = .modified [heap.id]) : Leads owner heap purpose (.finished finish)
  | remarked (purpose : Purpose) (writes : purpose.isWrite = true) :
      Leads owner heap purpose (.ask owner heap.id .mark)
  | passed (job : Insertion) (stop : UInt32) (more : heap.id.number + 1 < stop) :
      Leads owner heap (.place job stop)
        (.ask owner { heap.id with number := heap.id.number + 1 } (.place job stop))
  | filled (purpose : Purpose) (job : Insertion) (wants : purpose.job? = some job) :
      Leads owner heap purpose (.running (.extend owner job))
  | visited (cursor : Cursor) (toEnd : Bool) :
      Leads owner heap (.visit cursor toEnd) ((cursor.visit heap).advance toEnd)

theorem Purpose.leads_changed (owner : TransactionId) (heap : HeapPage) {purpose : Purpose}
    (writes : purpose.isWrite = true) (remarked : Bool) :
    purpose.Leads owner heap (.changed owner heap.id remarked) := by
  unfold Progress.changed
  split
  · exact .remarked purpose writes
  · exact .ended purpose _ (.inr (.inr rfl))

theorem Purpose.leads_act (owner : TransactionId) (heap : HeapPage) (purpose : Purpose) :
    purpose.Leads owner heap (purpose.act owner heap).2 := by
  have placed : ∀ (job : Insertion) (full : Progress), purpose.isWrite = true →
      purpose.Leads owner heap full →
        purpose.Leads owner heap (job.tryPage owner heap full).2 := by
    intro job full writes leads
    rcases job.tryPage_cases owner heap full with ⟨progress, same, rfl | ⟨failure, rfl⟩⟩ |
      ⟨after, record, made, same⟩
    · rwa [same]
    · rw [same]
      exact .ended purpose _ (.inr (.inl ⟨failure, rfl⟩))
    · obtain ⟨_, rfl⟩ := HeapPage.insert_eq made
      rw [same]
      exact leads_changed owner heap writes job.remarked
  cases purpose with
  | lock mode => exact .ended _ _ (.inl rfl)
  | guard mode => exact .ended _ _ (.inl rfl)
  | mark => exact .ended _ _ (.inr (.inr rfl))
  | visit cursor toEnd => exact .visited cursor toEnd
  | claim job => exact placed job _ rfl (.filled _ job rfl)
  | place job stop =>
    refine placed job _ rfl ?_
    split
    · next more => exact .passed job stop more
    · exact .filled _ job rfl
  | remove tuple remarked =>
    have writes : (remove tuple remarked).isWrite = true := rfl
    have leads := leads_changed owner heap writes remarked
    simp only [act]
    cases deleted : heap.delete tuple with
    | error failure => exact .ended _ _ (.inr (.inl ⟨failure, rfl⟩))
    | ok after =>
      obtain ⟨record, _, _, rfl⟩ := HeapPage.delete_eq deleted
      exact leads

namespace Access

variable {access : Access} {pool : Pool} {stay : Nat} {resident : Resident}

def result (access : Access) (heap : HeapPage) : HeapPage × Progress :=
  access.purpose.act access.owner heap

theorem result_cases (access : Access) (heap : HeapPage) : (access.result heap).1 = heap ∨
    access.purpose.mode = .exclusive ∧ heap.Written access.owner (access.result heap).1 :=
  access.purpose.act_cases access.owner heap

def guard (access : Access) (stay : Nat) : Guard :=
  ⟨access.page, stay, access.purpose.mode = .exclusive⟩

inductive Uses (access : Access) (pool : Pool) (stay : Nat) : Pool × Progress → Prop
  | blocked (refused : pool.latch (access.guard stay) = none) :
      Uses access pool stay (pool, .running (.access access))
  | guarded (mode : LockMode) (purpose : access.purpose = .guard mode) (latched : Pool)
      (latch : pool.latch (access.guard stay) = some latched) (heap : HeapPage)
      (view : latched.view (access.guard stay) = some heap) :
      Uses access pool stay (latched, .finished (.guarded (access.guard stay)))
  | gone (latched : Pool) (latch : pool.latch (access.guard stay) = some latched)
      (absent : latched.view (access.guard stay) = none) :
      Uses access pool stay (latched, .running (.access access))
  | done (works : ∀ mode, access.purpose ≠ .guard mode) (latched : Pool)
      (latch : pool.latch (access.guard stay) = some latched) (heap : HeapPage)
      (view : latched.view (access.guard stay) = some heap) (later : Pool)
      (drop : (latched.change (access.guard stay) (access.result heap).1).drop
        (access.guard stay) = (later, .ok ())) :
      Uses access pool stay (later, (access.result heap).2)
  | failed (works : ∀ mode, access.purpose ≠ .guard mode) (latched : Pool)
      (latch : pool.latch (access.guard stay) = some latched) (heap : HeapPage)
      (view : latched.view (access.guard stay) = some heap) (later : Pool) (failure : Failure)
      (drop : (latched.change (access.guard stay) (access.result heap).1).drop
        (access.guard stay) = (later, .error failure)) :
      Uses access pool stay (later, .failed failure)

theorem use_uses (access : Access) (pool : Pool) (stay : Nat) :
    Uses access pool stay (access.use pool stay) := by
  unfold use
  simp only
  split
  · next refused => exact .blocked refused
  · next latched latch =>
    split
    · next absent => exact .gone latched latch absent
    · next mode heap purpose view => exact .guarded mode purpose latched latch heap view
    · next heap view works =>
      split
      · next later drop =>
        exact .done (fun mode same => works mode same) latched latch heap view later drop
      · next later failure drop =>
        exact .failed (fun mode same => works mode same) latched latch heap view later failure drop

theorem rewrites_use (access : Access) (pool : Pool) (stay : Nat) :
    ∃ cache, (access.use pool stay).1 = { pool with cache } ∧
      Cache.Rewrites access.page stay (fun heap => (access.result heap).1) pool.cache cache := by
  have uses := access.use_uses pool stay
  generalize access.use pool stay = result at uses ⊢
  have looked : ∀ {latched : Pool}, pool.latch (access.guard stay) = some latched →
      ∃ cache, latched = { pool with cache } ∧
        Cache.Rewrites access.page stay (fun heap => (access.result heap).1) pool.cache cache := by
    intro latched latch
    obtain ⟨cache, same, visits⟩ := Pool.visits_latch latch
    exact ⟨cache, same, visits.rewrites stay _⟩
  -- To latch, change and let go is three updates of one resident, and comes to one rewriting.
  have whole : ∀ {latched later : Pool} {heap : HeapPage},
      pool.latch (access.guard stay) = some latched →
      latched.view (access.guard stay) = some heap →
      ((latched.change (access.guard stay) (access.result heap).1).drop (access.guard stay)).1 =
        later →
      ∃ cache, later = { pool with cache } ∧
        Cache.Rewrites access.page stay (fun heap => (access.result heap).1) pool.cache cache := by
    rintro latched later heap latch view rfl
    obtain ⟨first, rfl, latches⟩ := Pool.visits_latch latch
    obtain ⟨second, changed, changes⟩ := Pool.rewrites_change view fun heap =>
      (access.result heap).1
    obtain ⟨third, dropped, drops⟩ := Pool.visits_drop (({ pool with cache := first } : Pool).change
      (access.guard stay) (access.result heap).1) (access.guard stay)
    rw [dropped]
    rw [changed] at drops ⊢
    exact ⟨third, rfl, (latches.trans_rewrites changes).trans_visits drops⟩
  cases uses with
  | blocked refused => exact ⟨pool.cache, rfl, (Cache.Visits.refl _ _).rewrites stay _⟩
  | guarded mode purpose latched latch heap view => exact looked latch
  | gone latched latch absent => exact looked latch
  | done works latched latch heap view later drop => exact whole latch view (congrArg Prod.fst drop)
  | failed works latched latch heap view later failure drop =>
    exact whole latch view (congrArg Prod.fst drop)

theorem visits_use (pool : Pool) (stay : Nat) (still : ∀ heap, (access.result heap).1 = heap) :
    ∃ cache, (access.use pool stay).1 = { pool with cache } ∧
      Cache.Visits access.page pool.cache cache := by
  obtain ⟨cache, same, rewrites⟩ := access.rewrites_use pool stay
  exact ⟨cache, same, rewrites.visits still⟩

theorem use_guarded (pool : Pool) {page : PageId} (owner : TransactionId) (mode : LockMode)
    (present : pool.cache.frames[page]? = some resident)
    (free : resident.frame.latch = .shared 0) :
    ∃ latch cache, use ⟨owner, page, .guard mode, .use resident.stay⟩ pool resident.stay =
        ({ pool with cache }, .finished (.guarded ⟨page, resident.stay, mode = .exclusive⟩)) ∧
      Cache.Replaces page ⟨resident.stay, { resident.frame with latch }⟩ pool.cache cache ∧
      (latch = .shared 1 ∨ latch = .exclusive) := by
  obtain ⟨latch, cache, latched, replaces, held⟩ :=
    Pool.latch_free ⟨page, resident.stay, mode = .exclusive⟩ present rfl free
  refine ⟨latch, cache, ?_, replaces, held⟩
  have here : ({ pool with cache } : Pool).cache.frames[page]? = _ := replaces.cached
  have view := Pool.view_cached ⟨page, resident.stay, mode = .exclusive⟩ here rfl
  have uses := use_uses ⟨owner, page, .guard mode, .use resident.stay⟩ pool resident.stay
  generalize use ⟨owner, page, .guard mode, .use resident.stay⟩ pool resident.stay = result
    at uses ⊢
  cases uses with
  | blocked refused => cases refused.symm.trans latched
  | guarded mode' purpose latched' latch' heap shown =>
    obtain rfl : latched' = { pool with cache } := Option.some.inj (latch'.symm.trans latched)
    rfl
  | gone latched' latch' absent =>
    obtain rfl : latched' = { pool with cache } := Option.some.inj (latch'.symm.trans latched)
    cases absent.symm.trans view
  | done works => exact absurd rfl (works mode)
  | failed works => exact absurd rfl (works mode)

theorem use_cached (access : Access) (pinned : resident.frame.pins ≠ 0)
    (works : ∀ mode, access.purpose ≠ .guard mode)
    {first : Cache} {latch : Latch}
    (latched : pool.latch (access.guard resident.stay) = some { pool with cache := first })
    (latches : Cache.Replaces access.page ⟨resident.stay, { resident.frame with latch }⟩
      pool.cache first) :
    ∃ cache, access.use pool resident.stay =
        ({ pool with cache }, (access.result resident.frame.page).2) ∧
      Cache.Replaces access.page
        ⟨resident.stay, (Frame.mk resident.frame.id (access.result resident.frame.page).1
          (resident.frame.pins - 1) latch).unlatch⟩ pool.cache cache := by
  have under : ({ pool with cache := first } : Pool).cache.frames[access.page]? = _ :=
    latches.cached
  have view := Pool.view_cached (access.guard resident.stay) under rfl
  obtain ⟨cache, dropped, replaces⟩ := Pool.change_drop_cached (access.guard resident.stay) under rfl
    pinned (access.result resident.frame.page).1
  refine ⟨cache, ?_, latches.trans replaces⟩
  have uses := access.use_uses pool resident.stay
  generalize access.use pool resident.stay = result at uses ⊢
  have same : ∀ {before : Pool} {heap : HeapPage},
      pool.latch (access.guard resident.stay) = some before →
      before.view (access.guard resident.stay) = some heap →
        before = { pool with cache := first } ∧ heap = resident.frame.page := by
    intro before heap latch shown
    obtain rfl := Option.some.inj (latch.symm.trans latched)
    exact ⟨rfl, Option.some.inj (shown.symm.trans view)⟩
  cases uses with
  | blocked refused => cases refused.symm.trans latched
  | guarded mode purpose before latch heap shown => exact absurd purpose (works mode)
  | gone before latch absent =>
    obtain rfl := Option.some.inj (latch.symm.trans latched)
    cases absent.symm.trans view
  | done works before latch heap shown later drop =>
    obtain ⟨rfl, rfl⟩ := same latch shown
    obtain rfl : later = { pool with cache } := congrArg Prod.fst (drop.symm.trans dropped)
    rfl
  | failed works before latch heap shown later failure drop =>
    obtain ⟨rfl, rfl⟩ := same latch shown
    cases dropped.symm.trans drop

theorem use_exclusive (access : Access)
    (present : pool.cache.frames[access.page]? = some resident)
    (pinned : resident.frame.pins ≠ 0) (mode : access.purpose.mode = .exclusive)
    (works : ∀ mode, access.purpose ≠ .guard mode) :
    access.use pool resident.stay = (pool, .running (.access access)) ∨
      ∃ cache frame, access.use pool resident.stay =
          ({ pool with cache }, (access.result resident.frame.page).2) ∧
        Cache.Replaces access.page ⟨resident.stay, frame⟩ pool.cache cache ∧
        frame.id = resident.frame.id ∧ frame.page = (access.result resident.frame.page).1 ∧
        frame.pins = resident.frame.pins - 1 ∧ frame.latch = .shared 0 := by
  have writable : (access.guard resident.stay).writable = true := by simp [guard, mode]
  cases latch : pool.latch (access.guard resident.stay) with
  | none =>
    have refused : pool.latch ⟨access.page, resident.stay, access.purpose.mode = .exclusive⟩ = none :=
      latch
    exact .inl (by simp only [use, refused])
  | some latched =>
    obtain ⟨first, rfl, latches⟩ :=
      Pool.latch_cached (access.guard resident.stay) present rfl writable latch
    obtain ⟨cache, used, replaces⟩ := use_cached access pinned works latch latches
    exact .inr ⟨cache, _, used, replaces, rfl, rfl, rfl, rfl⟩

end Access
end PagedTables
