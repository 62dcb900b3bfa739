import PagedTables.Proofs.Sequence.Upkeep
import PagedTables.Proofs.Storage.Unread

/-! What a page that is fetched does to the others. One of them leaves only if there is no place left,
and then it is the one that came first among those that may go; if none may, or if the page cannot be
read, all stay as they were. -/

namespace PagedTables

namespace Cache

variable {cache later : Cache} {page victim other : PageId} {resident : Resident} {heap : HeapPage}

/-- A cached page may leave: it has no users, nobody writes to it, and its file has its changes. -/
structure MayGo (cache : Cache) (page : PageId) (resident : Resident) : Prop where
  present : cache.frames[page]? = some resident
  unpinned : resident.frame.pins = 0
  unlatched : resident.frame.latch ≠ .exclusive
  clean : resident.frame.page.dirtiedBy = none

def IsOldest (cache : Cache) (victim : PageId) : Prop :=
  ∃ resident, cache.MayGo victim resident ∧
    ∀ other found, other ≠ victim → cache.MayGo other found → resident.stay < found.stay

structure Brings (gone : Option PageId) (heap : HeapPage) (cache later : Cache) : Prop where
  frames : ∀ other, later.frames[other]? =
    if other = heap.id then some ⟨cache.nextStay, ⟨heap.id, heap, 1, .shared 0⟩⟩
    else if gone = some other then none
    else cache.frames[other]?
  queue : later.order.queue = gone.elim cache.order.queue cache.order.queue.erase ++ [heap.id]
  nextStay : later.nextStay = cache.nextStay + 1

theorem isEvictable_iff :
    cache.isEvictable page = true ↔ ∃ resident, cache.MayGo page resident := by
  unfold isEvictable
  cases present : cache.frames[page]? with
  | none =>
    refine iff_of_false Bool.false_ne_true fun ⟨resident, may⟩ => ?_
    rw [may.present] at present
    cases present
  | some resident =>
    have parts : resident.frame.isEvictable = true ↔ resident.frame.pins = 0 ∧
        resident.frame.latch ≠ .exclusive ∧ resident.frame.page.dirtiedBy = none := by
      simp [Frame.isEvictable, Frame.isPinned, HeapPage.isDirty, and_assoc]
    rw [parts]
    constructor
    · rintro ⟨unpinned, unlatched, clean⟩
      exact ⟨resident, present, unpinned, unlatched, clean⟩
    · rintro ⟨found, may⟩
      obtain rfl : resident = found := Option.some.inj (present.symm.trans may.present)
      exact ⟨may.unpinned, may.unlatched, may.clean⟩

theorem Lined.isOldest_of_victim (lined : cache.Lined)
    (chosen : (cache.order.evict cache.isEvictable).2.victim = some victim) :
    cache.IsOldest victim := by
  rw [LoadOrder.evict_victim, List.find?_eq_some_iff_append] at chosen
  obtain ⟨may, before, behind, queue, passed⟩ := chosen
  obtain ⟨resident, goes⟩ := isEvictable_iff.mp (Bool.and_eq_true_iff.mp may).2
  refine ⟨resident, goes, fun other found apart goes' => ?_⟩
  have tracked : other ∈ cache.order.tracked :=
    (lined.tracked other).mpr (mem_frames_iff.mpr ⟨found, goes'.present⟩)
  have queued : other ∈ before ++ victim :: behind := queue ▸ (lined.queued other).mpr tracked
  have begun := lined.begun
  rw [queue, List.pairwise_append, List.pairwise_cons] at begun
  rcases List.mem_append.mp queued with early | late
  · have stays := passed other early
    rw [Std.ExtTreeSet.contains_iff_mem.mpr tracked, isEvictable_iff.mpr ⟨found, goes'⟩] at stays
    cases stays
  · have late : other ∈ behind := (List.mem_cons.mp late).resolve_left apart
    exact begun.2.1.1 other late resident found goes.present goes'.present

theorem Lined.not_mayGo_of_no_victim (lined : cache.Lined)
    (none : (cache.order.evict cache.isEvictable).2.victim = none) (page : PageId)
    (resident : Resident) : ¬cache.MayGo page resident := by
  intro may
  rw [LoadOrder.evict_victim, List.find?_eq_none] at none
  have tracked : page ∈ cache.order.tracked :=
    (lined.tracked page).mpr (mem_frames_iff.mpr ⟨resident, may.present⟩)
  refine none page ((lined.queued page).mpr tracked) ?_
  rw [Std.ExtTreeSet.contains_iff_mem.mpr tracked, isEvictable_iff.mpr ⟨resident, may⟩]
  rfl

theorem Lined.evict_cases (lined : cache.Lined) :
    (∃ victim later, cache.evict = some later ∧ cache.IsOldest victim ∧
      Leaves victim cache later) ∨
    cache.evict = none ∧ ∀ page resident, ¬cache.MayGo page resident := by
  cases evicted : cache.evict with
  | some later =>
    obtain ⟨victim, chosen, leaves⟩ := leaves_evict evicted
    exact .inl ⟨victim, later, rfl, lined.isOldest_of_victim chosen, leaves⟩
  | none =>
    refine .inr ⟨rfl, lined.not_mayGo_of_no_victim ?_⟩
    unfold evict at evicted
    split at evicted
    · cases evicted
    · next order asked same => rw [same]

theorem IsOldest.unique (oldest : cache.IsOldest victim) (oldest' : cache.IsOldest other) :
    other = victim := by
  obtain ⟨resident, goes, first⟩ := oldest
  obtain ⟨found, goes', first'⟩ := oldest'
  by_contra apart
  exact Nat.lt_asymm (first other found apart goes') (first' victim resident (Ne.symm apart) goes)

theorem Lined.brings_load (lined : cache.Lined) (absent : cache.frames[heap.id]? = none) :
    Brings none heap cache (cache.load heap).1 where
  frames other := by
    rw [getElem?_load]
    rfl
  queue := congrArg LoadOrder.queue (lined.order_load absent)
  nextStay := rfl

theorem Leaves.brings_load (leaves : Leaves victim cache later) (lined : cache.Lined)
    (absent : cache.frames[heap.id]? = none) :
    Brings (some victim) heap cache (later.load heap).1 := by
  have gone : later.frames[heap.id]? = none := by rw [leaves.frames, absent, ite_self]
  have brings := (lined.leaves leaves).brings_load gone
  refine ⟨fun other => ?_, ?_, ?_⟩
  · rw [brings.frames, leaves.frames, leaves.nextStay]
    simp only [reduceCtorEq, ↓reduceIte, Option.some.injEq, @eq_comm _ victim]
  · rw [brings.queue, Option.elim_none, leaves.queue, Option.elim_some]
  · rw [brings.nextStay, leaves.nextStay]

end Cache

namespace Pool

variable {pool : Pool} {page : PageId}

inductive Fetches (pool : Pool) (page : PageId) : Cache → Except Failure Nat → Prop
  | hit (resident : Resident) (present : pool.cache.frames[page]? = some resident) (cache : Cache)
      (replaces : Cache.Replaces page
        { resident with frame := { resident.frame with pins := resident.frame.pins + 1 } }
        pool.cache cache) (order : cache.order = pool.cache.order) :
      Fetches pool page cache
        (if resident.frame.pins + 1 = 0 then .error (.fault .addOverflow) else .ok resident.stay)
  | unread (absent : pool.cache.frames[page]? = none) (failure : Failure)
      (unread : pool.readPage page = .error failure) :
      Fetches pool page pool.cache (.error failure)
  | roomy (absent : pool.cache.frames[page]? = none) (heap : HeapPage)
      (read : pool.readPage page = .ok heap) (room : pool.cache.size < pool.config.poolPages)
      (cache : Cache) (brings : Cache.Brings none heap pool.cache cache) :
      Fetches pool page cache (.ok pool.cache.nextStay)
  | evicts (absent : pool.cache.frames[page]? = none) (heap : HeapPage)
      (read : pool.readPage page = .ok heap) (full : ¬pool.cache.size < pool.config.poolPages)
      (victim : PageId) (oldest : pool.cache.IsOldest victim) (cache : Cache)
      (brings : Cache.Brings (some victim) heap pool.cache cache) :
      Fetches pool page cache (.ok pool.cache.nextStay)
  | exhausted (absent : pool.cache.frames[page]? = none) (heap : HeapPage)
      (read : pool.readPage page = .ok heap) (full : ¬pool.cache.size < pool.config.poolPages)
      (stuck : ∀ other resident, ¬pool.cache.MayGo other resident) :
      Fetches pool page pool.cache (.error (.error (.capacityExhausted pool.config.poolPages)))

theorem fetches_pin (lined : pool.cache.Lined) (page : PageId) :
    pool.Fetches page (pool.pin page).1.cache (pool.pin page).2 := by
  unfold pin
  cases present : pool.cache.frames[page]? with
  | some resident =>
    have hit := Fetches.hit resident present _
      (Cache.replaces_update present { resident.frame with pins := resident.frame.pins + 1 })
      Cache.order_update
    by_cases full : resident.frame.pins + 1 = 0
    · simpa only [Frame.pin, full, ↓reduceIte] using hit
    · simpa only [Frame.pin, full, ↓reduceIte, count] using hit
  | none =>
    simp only
    have same : (pool.count .misses).readPage page = pool.readPage page := rfl
    rw [same]
    cases read : pool.readPage page with
    | error failure => exact .unread present failure read
    | ok heap =>
      have absent : pool.cache.frames[heap.id]? = none := (of_readPage read).1 ▸ present
      simp only [makeRoom]
      by_cases room : pool.cache.size < pool.config.poolPages
      · have brings := lined.brings_load absent
        have roomy := Fetches.roomy present heap read room _ brings
        simpa only [count, room, ↓reduceIte, Cache.load] using roomy
      · rcases lined.evict_cases with ⟨victim, later, evicted, oldest, leaves⟩ | ⟨evicted, stuck⟩
        · have evicts := Fetches.evicts present heap read room victim oldest _
            (leaves.brings_load lined absent)
          simpa only [count, room, ↓reduceIte, evicted, Cache.load, leaves.nextStay] using evicts
        · have exhausted := Fetches.exhausted present heap read room stuck
          simpa only [count, room, ↓reduceIte, evicted] using exhausted

section Fetches

variable {later : Cache} {answer : Except Failure Nat}

theorem Fetches.joins (fetches : pool.Fetches page later answer) {resident : Resident}
    (present : pool.cache.frames[page]? = some resident) :
    Cache.Replaces page
        { resident with frame := { resident.frame with pins := resident.frame.pins + 1 } }
        pool.cache later ∧ later.order = pool.cache.order ∧
      (resident.frame.pins + 1 ≠ 0 → answer = .ok resident.stay) := by
  cases fetches with
  | hit found present' cache replaces order =>
    obtain rfl : found = resident := Option.some.inj (present'.symm.trans present)
    exact ⟨replaces, order, fun room => if_neg room⟩
  | unread absent => simp [absent] at present
  | roomy absent => simp [absent] at present
  | evicts absent => simp [absent] at present
  | exhausted absent => simp [absent] at present

theorem Fetches.brings (fetches : pool.Fetches page later answer) {heap : HeapPage}
    (absent : pool.cache.frames[page]? = none) (read : pool.readPage page = .ok heap) :
    (pool.cache.size < pool.config.poolPages →
      Cache.Brings none heap pool.cache later ∧ answer = .ok pool.cache.nextStay) ∧
    (pool.cache.size = pool.config.poolPages → ∀ victim, pool.cache.IsOldest victim →
      Cache.Brings (some victim) heap pool.cache later ∧ answer = .ok pool.cache.nextStay) := by
  cases fetches with
  | hit resident present => simp [absent] at present
  | unread absent' failure unread => simp [read] at unread
  | roomy absent' found read' room cache brings =>
    obtain rfl : found = heap := Except.ok.inj (read'.symm.trans read)
    exact ⟨fun _ => ⟨brings, rfl⟩, fun full => absurd room (Nat.not_lt.mpr full.ge)⟩
  | evicts absent' found read' full oldest isOldest cache brings =>
    obtain rfl : found = heap := Except.ok.inj (read'.symm.trans read)
    refine ⟨fun room => absurd room full, fun _ victim isOldest' => ?_⟩
    exact isOldest.unique isOldest' ▸ ⟨brings, rfl⟩
  | exhausted absent' found read' full stuck =>
    refine ⟨fun room => absurd room full, fun _ victim ⟨resident, may, _⟩ => ?_⟩
    exact absurd may (stuck victim resident)

theorem Fetches.exhausted_iff (fetches : pool.Fetches page later answer)
    (fits : pool.cache.size ≤ pool.config.poolPages) (capacity : Nat) :
    answer = .error (.error (.capacityExhausted capacity)) ↔
      capacity = pool.config.poolPages ∧ pool.cache.frames[page]? = none ∧
        (∃ heap, pool.readPage page = .ok heap) ∧ pool.cache.size = pool.config.poolPages ∧
        ∀ other resident, ¬pool.cache.MayGo other resident := by
  cases fetches with
  | hit resident present cache replaces order =>
    refine iff_of_false (fun same => ?_) fun all => by simp [all.2.1] at present
    split at same <;> cases same
  | unread absent failure unread =>
    refine iff_of_false (fun same => ?_) fun ⟨_, _, ⟨heap, read⟩, _⟩ => by simp [read] at unread
    obtain rfl := Except.error.inj same
    cases unread_of_readPage unread
  | roomy absent heap read room cache brings =>
    exact iff_of_false (by simp) fun all => Nat.lt_irrefl _ (all.2.2.2.1 ▸ room)
  | evicts absent heap read full victim oldest cache brings =>
    obtain ⟨resident, may, _⟩ := oldest
    exact iff_of_false (by simp) fun all => all.2.2.2.2 victim resident may
  | exhausted absent heap read full stuck =>
    have size := Nat.le_antisymm fits (Nat.le_of_not_lt full)
    simp only [Except.error.injEq, Failure.error.injEq, StoreError.capacityExhausted.injEq]
    exact ⟨fun same => ⟨same.symm, absent, ⟨heap, read⟩, size, stuck⟩, fun all => all.1.symm⟩

theorem Fetches.kept (fetches : pool.Fetches page later answer) {cause : StoreError}
    (failed : answer = .error (.error cause)) :
    later = pool.cache ∧
      (Failure.Unread page (.error cause) ∨ cause = .capacityExhausted pool.config.poolPages) := by
  cases fetches with
  | hit resident present cache replaces order => split at failed <;> cases failed
  | unread absent failure unread =>
    obtain rfl := Except.error.inj failed
    exact ⟨rfl, .inl (unread_of_readPage unread)⟩
  | roomy absent heap read room cache brings => cases failed
  | evicts absent heap read full victim oldest cache brings => cases failed
  | exhausted absent heap read full stuck =>
    cases failed
    exact ⟨rfl, .inr rfl⟩

end Fetches

theorem mem_frames_latch {guard : Guard} {latched : Pool} (h : pool.latch guard = some latched)
    (other : PageId) : other ∈ latched.cache.frames ↔ other ∈ pool.cache.frames := by
  obtain ⟨cache, rfl, visits⟩ := visits_latch h
  have rested := congrArg Option.isSome (visits.rested other)
  rw [Option.isSome_map, Option.isSome_map] at rested
  rw [Std.ExtTreeMap.mem_iff_isSome_getElem?, Std.ExtTreeMap.mem_iff_isSome_getElem?, rested]

theorem order_latch {guard : Guard} {latched : Pool} (h : pool.latch guard = some latched) :
    latched.cache.order = pool.cache.order := by
  obtain ⟨resident, frame, _, _, rfl⟩ := latch_eq_some h
  exact Cache.order_update

/-- A page that is locked is fetched, after anything that was done to the pool. The others stay unless
every place is taken; then the oldest that may go leaves for it. A page that cannot be read, or that
finds no place, changes nothing. -/
theorem pin_evicts {config : Config} {disk : Disk} {first : Pool}
    (made : Pool.start config disk = .ok first) (touches : List Touch)
    (reached : touches.foldl Touch.run first = pool) (page : PageId) :
    let before := pool.cache
    let later := (pool.pin page).1.cache
    let answer := (pool.pin page).2
    before.size ≤ config.poolPages ∧
    (∀ (other : PageId) (resident : Resident), before.frames[other]? = some resident →
      resident.stay < before.nextStay) ∧
    (∀ resident, before.frames[page]? = some resident →
      Cache.Replaces page
        { resident with frame := { resident.frame with pins := resident.frame.pins + 1 } }
        before later ∧ later.order = before.order ∧
      (resident.frame.pins + 1 ≠ 0 → answer = .ok resident.stay)) ∧
    (∀ heap, before.frames[page]? = none → pool.readPage page = .ok heap →
      (before.size < config.poolPages →
        Cache.Brings none heap before later ∧ answer = .ok before.nextStay) ∧
      (before.size = config.poolPages → ∀ victim, before.IsOldest victim →
        Cache.Brings (some victim) heap before later ∧ answer = .ok before.nextStay)) ∧
    ((∃ other resident, before.MayGo other resident) → ∃ victim, before.IsOldest victim) ∧
    (∀ capacity, answer = .error (.error (.capacityExhausted capacity)) ↔
      capacity = config.poolPages ∧ before.frames[page]? = none ∧
        (∃ heap, pool.readPage page = .ok heap) ∧ before.size = config.poolPages ∧
        ∀ other resident, ¬before.MayGo other resident) ∧
    (∀ cause, answer = .error (.error cause) → later = before ∧
      (Failure.Unread page (.error cause) ∨ cause = .capacityExhausted config.poolPages)) ∧
    (∀ access : Access, access.page = page → access.phase = .pin →
      (access.step pool).1 = (pool.pin page).1 ∧
        ∀ failure, answer = .error failure →
          (access.step pool).2 = .finished (access.purpose.failed failure)) ∧
    ∀ guard latched, pool.latch guard = some latched →
      (∀ other, other ∈ latched.cache.frames ↔ other ∈ before.frames) ∧
        latched.cache.order = before.order := by
  intro before later answer
  have upkeep : first.Upkeep pool := reached ▸ Touch.upkeep_runs touches first
  obtain ⟨rfl, empty⟩ : first.config = config ∧ first.cache = .empty := by
    rw [Pool.start_eq made]
    exact ⟨rfl, rfl⟩
  have lined : pool.cache.Lined := upkeep.lined (empty ▸ Cache.lined_empty)
  have fits : pool.cache.size ≤ pool.config.poolPages := by
    rw [upkeep.config]
    exact upkeep.fits (empty ▸ Nat.zero_le _)
  have fetches : pool.Fetches page later answer := fetches_pin lined page
  rw [← upkeep.config]
  have oldest : (∃ other resident, before.MayGo other resident) →
      ∃ victim, before.IsOldest victim := by
    rintro ⟨other, resident, may⟩
    rcases lined.evict_cases with ⟨victim, _, _, oldest, _⟩ | ⟨_, stuck⟩
    · exact ⟨victim, oldest⟩
    · exact absurd may (stuck other resident)
  refine ⟨fits, lined.past, fun _ => fetches.joins, fun _ => fetches.brings, oldest,
    fetches.exhausted_iff fits, fun _ => fetches.kept, ?_, fun guard latched latch =>
      ⟨mem_frames_latch latch, order_latch latch⟩⟩
  -- An operation that pins the page does that and nothing else, and ends as the fetch fails.
  rintro ⟨owner, wanted, purpose, phase⟩ rfl rfl
  simp only [Access.step, Access.pin, answer]
  generalize pool.pin wanted = result
  obtain ⟨last, result⟩ := result
  cases result with
  | ok stay => exact ⟨rfl, fun failure failed => by cases failed⟩
  | error cause =>
    refine ⟨rfl, fun failure failed => ?_⟩
    cases failed
    rfl

/-- Of two cached pages the older one has a change that was not written, so the other one leaves. -/
theorem pin_evicts_turnover :
    let config : Config := { pageSize := 16, poolPages := 2 }
    let first := { Workload.smallPool with config }
    let pool := Touch.turnover.foldl Touch.run first
    pool.cache.order.queue = [⟨⟨0⟩, 2⟩, ⟨⟨0⟩, 0⟩] ∧ pool.cache.IsOldest ⟨⟨0⟩, 0⟩ ∧
      ∃ heap, Cache.Brings (some ⟨⟨0⟩, 0⟩) heap pool.cache (pool.pin ⟨⟨0⟩, 1⟩).1.cache := by
  intro config first pool
  have made : Pool.start config .blank = .ok first := rfl
  have reached : Touch.turnover.foldl Touch.run first = pool := rfl
  have evicts := pin_evicts made Touch.turnover reached ⟨⟨0⟩, 1⟩
  obtain ⟨queue, cached, dirty, clean, absent, full, readable⟩ :
      pool.cache.order.queue = [⟨⟨0⟩, 2⟩, ⟨⟨0⟩, 0⟩] ∧
        pool.cache.frames.keys = [⟨⟨0⟩, 0⟩, ⟨⟨0⟩, 2⟩] ∧
        pool.cache.isEvictable ⟨⟨0⟩, 2⟩ = false ∧ pool.cache.isEvictable ⟨⟨0⟩, 0⟩ = true ∧
        pool.cache.frames[(⟨⟨0⟩, 1⟩ : PageId)]? = none ∧ pool.cache.size = 2 ∧
        (pool.readPage ⟨⟨0⟩, 1⟩).isOk = true := by
    decide +kernel
  obtain ⟨resident, may⟩ := Cache.isEvictable_iff.mp clean
  have oldest : pool.cache.IsOldest ⟨⟨0⟩, 0⟩ := by
    refine ⟨resident, may, fun other found apart goes => ?_⟩
    have listed : other ∈ pool.cache.frames.keys :=
      Std.ExtTreeMap.mem_keys.mpr (Cache.mem_frames_iff.mpr ⟨found, goes.present⟩)
    simp only [cached, List.mem_cons, List.not_mem_nil, or_false, apart, false_or] at listed
    rw [← listed, Cache.isEvictable_iff.mpr ⟨found, goes⟩] at dirty
    cases dirty
  cases read : pool.readPage ⟨⟨0⟩, 1⟩ with
  | error failure => simp [read, Except.isOk, Except.toBool] at readable
  | ok heap => exact ⟨queue, oldest, heap, ((evicts.2.2.2.1 heap absent read).2 full _ oldest).1⟩

end Pool
end PagedTables
