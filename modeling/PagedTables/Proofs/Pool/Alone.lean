import PagedTables.Proofs.Pool.Alike

/-! A pool with one user at a time. It never has to wait for a latch, and finds every page as it is
shown, unless there is no room for it. -/

namespace PagedTables

def Frame.Idle (frame : Frame) : Prop := frame.pins = 0 ∧ frame.latch = .shared 0

def Latch.Held (latch : Latch) : Prop := latch = .shared 1 ∨ latch = .exclusive

theorem Frame.idle_unlatch (frame : Frame) (pins : frame.pins = 1) (held : frame.latch.Held) :
    frame.unpin.1.unlatch.Idle := by
  obtain ⟨id, page, pins', latch⟩ := frame
  obtain rfl : pins' = 1 := pins
  have last : (1 : UInt32) - 1 = 0 := rfl
  rcases held with rfl | rfl
  · exact ⟨last, rfl⟩
  · exact ⟨last, rfl⟩

namespace Pool

def Quiet (pool : Pool) : Prop := ∀ (page : PageId) (resident : Resident),
  pool.cache.frames[page]? = some resident → resident.frame.Idle

theorem Quiet.unlatched {pool : Pool} (quiet : pool.Quiet) : pool.Unlatched := by
  refine unlatched_iff.mpr fun entry member => ?_
  have idle := quiet entry.1 entry.2 (Std.ExtTreeMap.mem_toList_iff_getElem?_eq_some.mp member)
  simp only [Frame.allowsFlush, idle.2, decide_true, Bool.true_or]

/-- One user has a page of the cache, and nobody has another. -/
structure Attends (pool : Pool) (page : PageId) (stay : Nat) (latch : Latch) : Prop where
  here : ∃ resident, pool.cache.frames[page]? = some resident ∧ resident.stay = stay ∧
    resident.frame.pins = 1 ∧ resident.frame.latch = latch
  elsewhere : ∀ (other : PageId) (resident : Resident), other ≠ page →
    pool.cache.frames[other]? = some resident → resident.frame.Idle

variable {start : Disk} {pool : Pool} {page : PageId} {stay : Nat} {latch : Latch}
  {resident : Resident} {cache : Cache}

theorem Quiet.attends (quiet : pool.Quiet)
    (h : Cache.Replaces page resident pool.cache cache) (pins : resident.frame.pins = 1)
    (stats : Statistics) :
    ({ pool with cache, stats } : Pool).Attends page resident.stay resident.frame.latch :=
  ⟨⟨resident, h.cached, rfl, pins, rfl⟩, fun other found apart present =>
    quiet other found (h.elsewhere apart ▸ present)⟩

theorem Attends.quiet (attends : pool.Attends page stay latch)
    (h : Cache.Replaces page resident pool.cache cache) (idle : resident.frame.Idle) :
    ({ pool with cache } : Pool).Quiet := by
  intro other found present
  rcases h.cases present with ⟨rfl, rfl⟩ | ⟨apart, present⟩
  · exact idle
  · exact attends.elsewhere other found apart present

theorem Quiet.makeRoom (quiet : pool.Quiet) : pool.makeRoom.1.Quiet := by
  rcases pool.makeRoom_cases with same | ⟨cache, evicted, same⟩
  · rwa [same]
  · rw [same]
    intro other found present
    obtain ⟨_, _, _, _, frames, _⟩ := Cache.of_evict evicted
    exact quiet other found (Cache.cached_of_left frames present).2

end Pool

namespace Access

variable {start : Disk} {pool : Pool} {access : Access} {stay : Nat} {latch : Latch}

inductive Pinned (access : Access) (pool : Pool) : Pool × Progress → Prop
  | exhausted (later : Pool) (quiet : later.Quiet) (failure : Failure)
      (exhausted : failure.isExhausted = true) :
      Pinned access pool (later, .finished (access.purpose.failed failure))
  | unread (later : Pool) (quiet : later.Quiet) (failure : Failure)
      (unread : pool.shown access.page = .error failure) :
      Pinned access pool (later, .finished (access.purpose.failed failure))
  | pinned (later : Pool) (stay : Nat) (attends : later.Attends access.page stay (.shared 0))
      (heap : HeapPage) (shown : pool.shown access.page = .ok heap) :
      Pinned access pool (later, .running (.access { access with phase := .use stay }))

theorem pinned_pin (fresh : pool.Fresh start) (quiet : pool.Quiet) (access : Access) :
    Pinned access pool (access.pin pool) := by
  have pins := pool.pin_pins access.page
  unfold pin
  generalize pool.pin access.page = result at pins ⊢
  cases pins with
  | crowded resident present full failure =>
    rw [(quiet _ resident present).1] at full
    cases full
  | unread absent stats failure unread =>
    exact .unread { pool with stats } quiet failure ((pool.shown_absent absent).trans unread)
  | homeless absent stats failure exhausted =>
    have quiet : ({ pool with stats } : Pool).Quiet := quiet
    exact .exhausted _ quiet.makeRoom failure exhausted
  | hit resident present room stats =>
    obtain ⟨pins, latch⟩ := quiet _ resident present
    have replaces := Cache.replaces_update present
      { resident.frame with pins := resident.frame.pins + 1 }
    have attends := quiet.attends replaces (by rw [pins]; rfl) stats
    exact .pinned _ _ (latch ▸ attends) resident.frame.page (fresh.shown_cached present)
  | loaded absent stats heap read roomy made =>
    have quiet : ({ pool with stats } : Pool).Quiet := quiet
    have quiet := quiet.makeRoom
    rw [congrArg Prod.fst made] at quiet
    have named := (Pool.of_readPage read).1
    refine .pinned _ _ ⟨⟨⟨roomy.cache.nextStay, (Frame.load heap).pin.1⟩, ?_, rfl, rfl, rfl⟩,
      fun other found apart present => ?_⟩ heap ((pool.shown_absent absent).trans read)
    · show (roomy.cache.load heap).1.frames[access.page]? = _
      rw [Cache.getElem?_load, if_pos named.symm]
    · have present : (roomy.cache.load heap).1.frames[other]? = some found := present
      rw [Cache.getElem?_load, if_neg (named.symm ▸ apart)] at present
      exact quiet other found present

theorem alike_pin (access : Access) (pool : Pool) : pool.Alike (access.pin pool).1 := by
  have alike := (pool.serves_pin access.page).alike
  unfold pin
  generalize pool.pin access.page = result at alike ⊢
  obtain ⟨later, answer⟩ := result
  cases answer with
  | error failure => exact alike
  | ok stay => exact alike

theorem use_attended (access : Access) (attends : pool.Attends access.page stay (.shared 0))
    (works : ∀ mode, access.purpose ≠ .guard mode) :
    ∃ (resident : Resident) (cache : Cache) (frame : Frame),
      pool.cache.frames[access.page]? = some resident ∧
      access.use pool stay = ({ pool with cache }, (access.result resident.frame.page).2) ∧
      Cache.Replaces access.page ⟨stay, frame⟩ pool.cache cache ∧
      frame.page = (access.result resident.frame.page).1 ∧ ({ pool with cache } : Pool).Quiet := by
  obtain ⟨resident, present, rfl, pins, free⟩ := attends.here
  obtain ⟨latch, first, latched, latches, held⟩ :=
    Pool.latch_free (access.guard resident.stay) present rfl free
  have pinned : resident.frame.pins ≠ 0 := by rw [pins]; decide
  obtain ⟨cache, used, replaces⟩ := use_cached access pinned works latched latches
  have page : ∀ frame : Frame, frame.unlatch.page = frame.page := fun frame => by
    unfold Frame.unlatch
    split <;> rfl
  have idle := (Frame.mk resident.frame.id (access.result resident.frame.page).1
    resident.frame.pins latch).idle_unlatch pins held
  exact ⟨resident, cache, _, present, used, replaces, page _, attends.quiet replaces idle⟩

theorem guarded_attended {page : PageId} (owner : TransactionId) (mode : LockMode)
    (attends : pool.Attends page stay (.shared 0)) :
    ∃ latch cache, use ⟨owner, page, .guard mode, .use stay⟩ pool stay =
        ({ pool with cache }, .finished (.guarded ⟨page, stay, mode = .exclusive⟩)) ∧
      latch.Held ∧ ({ pool with cache } : Pool).Attends page stay latch ∧
      pool.Alike { pool with cache } := by
  obtain ⟨resident, present, rfl, pins, free⟩ := attends.here
  obtain ⟨latch, cache, used, replaces, held⟩ := use_guarded pool owner mode present free
  have visits := replaces.visits present (Resident.rested_eq_iff.mpr ⟨rfl, rfl, rfl⟩)
  refine ⟨latch, cache, used, held,
    ⟨⟨_, replaces.cached, rfl, pins, rfl⟩, fun other found apart here => ?_⟩,
    (Pool.Serves.of_visits visits pool.stats).alike⟩
  exact attends.elsewhere other found apart (replaces.elsewhere apart ▸ here)

end Access

theorem Pool.Attends.dropped {start : Disk} {pool : Pool} {guard : Guard} {latch : Latch}
    (fresh : pool.Fresh start) (attends : pool.Attends guard.page guard.stay latch)
    (held : latch.Held) :
    (pool.drop guard).1.Quiet ∧ ∃ heap, pool.view guard = some heap ∧
      pool.shown guard.page = .ok heap := by
  obtain ⟨resident, present, stays, pins, rfl⟩ := attends.here
  have pinned : resident.frame.pins ≠ 0 := by rw [pins]; decide
  obtain ⟨cache, dropped, replaces⟩ := Pool.drop_cached guard present stays pinned
  refine ⟨?_, resident.frame.page, Pool.view_cached guard present stays, fresh.shown_cached present⟩
  rw [dropped]
  exact attends.quiet replaces (resident.frame.idle_unlatch pins held)

end PagedTables
