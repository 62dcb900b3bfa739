import Mathlib.Tactic.Tauto
import PagedTables.Pool.Guard
import PagedTables.Proofs.Storage.Cache
import PagedTables.Proofs.Storage.File

/-! Pages are served from the cache. To pin, to latch and to let go of a page changes none, brings at
most that page into the cache, and drives out only a page that is clean and that nobody uses. -/

namespace PagedTables

theorem HeapPage.of_read {id : PageId} {schema : Schema} {layout : PageLayout} {data : Bytes}
    {start : Nat} {heap : HeapPage} (h : read id schema layout data start = .ok heap) :
    heap.id = id ∧ heap.dirtiedBy = none := by
  obtain ⟨slotted, clean⟩ := slotted_of_read h
  exact ⟨slotted.id, clean⟩

theorem HeapFile.of_readPage {file : HeapFile} {disk : Disk} {page : PageId} {heap : HeapPage}
    (h : file.readPage disk page = .ok heap) : heap.id = page ∧ heap.dirtiedBy = none := by
  unfold readPage at h
  split at h
  · cases h
  · cases offset : page.fileOffset file.pageSize with
    | error failure => simp [offset, bind, Except.bind] at h
    | ok start =>
    cases stop : addSized start file.pageSize with
    | error failure => simp [offset, stop, bind, Except.bind] at h
    | ok last =>
      simp only [offset, stop, bind, Except.bind] at h
      split at h
      · cases h
      · exact HeapPage.of_read h

def Failure.isExhausted : Failure → Bool
  | error (.capacityExhausted _) => true
  | _ => false

namespace Pool

variable {pool later : Pool} {page : PageId} {stay : Nat} {resident : Resident}

structure Serves (page : PageId) (pool later : Pool) : Prop where
  config : later.config = pool.config
  disk : later.disk = pool.disk
  tables : later.tables = pool.tables
  nextTable : later.nextTable = pool.nextTable
  locks : later.locks = pool.locks
  elsewhere : ∀ other, other ≠ page → later.cache.frames[other]? = pool.cache.frames[other]? ∨
    later.cache.frames[other]? = none ∧
      ∃ resident, pool.cache.frames[other]? = some resident ∧ resident.frame.isEvictable = true
  here : later.cache.frames[page]?.map Resident.rested =
      pool.cache.frames[page]?.map Resident.rested ∨
    pool.cache.frames[page]? = none ∧
      ∃ resident, later.cache.frames[page]? = some resident ∧ resident.frame.id = page ∧
        pool.readPage page = .ok resident.frame.page
  departed : ∀ gone ∈ later.cache.departed,
    ∃ before ∈ pool.cache.departed, gone.rested = before.rested
  distinct : pool.cache.Distinct → later.cache.Distinct

theorem Serves.of_visits {cache : Cache} (h : Cache.Visits page pool.cache cache)
    (stats : Statistics) : Serves page pool { pool with cache, stats } where
  config := rfl
  disk := rfl
  tables := rfl
  nextTable := rfl
  locks := rfl
  elsewhere other apart := .inl (h.elsewhere other apart)
  here := .inl h.here
  departed := h.departed
  distinct distinct := distinct.visits h

theorem Serves.refl (page : PageId) (pool : Pool) : Serves page pool pool :=
  .of_visits (.refl page pool.cache) pool.stats

theorem Serves.of_stats (page : PageId) (pool : Pool) (stats : Statistics) :
    Serves page pool { pool with stats } :=
  .of_visits (.refl page pool.cache) stats

theorem serves_load {heap : HeapPage} (absent : pool.cache.frames[page]? = none)
    (read : pool.readPage page = .ok heap) (named : heap.id = page) (stats : Statistics) :
    Serves page pool { pool with cache := (pool.cache.load heap).1, stats } where
  config := rfl
  disk := rfl
  tables := rfl
  nextTable := rfl
  locks := rfl
  elsewhere other apart := by
    refine .inl ?_
    rw [Cache.getElem?_load, if_neg (named.symm ▸ apart)]
  here := by
    refine .inr ⟨absent, ⟨pool.cache.nextStay, (Frame.load heap).pin.1⟩, ?_, named, read⟩
    rw [Cache.getElem?_load, if_pos named.symm]
  departed gone member := ⟨gone, member, rfl⟩
  distinct distinct := distinct.load heap

theorem serves_evict {cache : Cache} (h : pool.cache.evict = some cache)
    (absent : pool.cache.frames[page]? = none) (stats : Statistics) :
    Serves page pool { pool with cache, stats } := by
  obtain ⟨victim, resident, present, may, frames, departed, _⟩ := Cache.of_evict h
  refine ⟨rfl, rfl, rfl, rfl, rfl, fun other apart => ?_, .inl ?_, fun gone member => ?_,
    fun distinct => distinct.evict h⟩
  · rw [frames]
    split
    · next same =>
      subst same
      exact .inr ⟨rfl, resident, present, may⟩
    · exact .inl rfl
  · show cache.frames[page]?.map Resident.rested = _
    rw [frames, absent, ite_self]
  · exact ⟨gone, departed ▸ member, rfl⟩

theorem Serves.trans_load {last : Pool} (h : Serves page pool later)
    (absent : later.cache.frames[page]? = none) (before : pool.cache.frames[page]? = none)
    (h' : Serves page later last) : Serves page pool last where
  config := h'.config.trans h.config
  disk := h'.disk.trans h.disk
  tables := h'.tables.trans h.tables
  nextTable := h'.nextTable.trans h.nextTable
  locks := h'.locks.trans h.locks
  elsewhere other apart := by
    rcases h'.elsewhere other apart with same | ⟨gone, resident, present, may⟩
    · rw [same]
      exact h.elsewhere other apart
    · rcases h.elsewhere other apart with same | ⟨absent, _⟩
      · exact .inr ⟨gone, resident, same ▸ present, may⟩
      · rw [absent] at present
        cases present
  here := by
    rcases h'.here with same | ⟨_, resident, present, named, read⟩
    · exact .inl (by rw [same, absent, before])
    · refine .inr ⟨before, resident, present, named, ?_⟩
      simpa only [readPage, Pool.file, h.tables, h.disk] using read
  departed gone member := by
    obtain ⟨between, member, same⟩ := h'.departed gone member
    obtain ⟨before, member, same'⟩ := h.departed between member
    exact ⟨before, member, same.trans same'⟩
  distinct distinct := h'.distinct (h.distinct distinct)

theorem makeRoom_cases (pool : Pool) :
    (pool.makeRoom).1 = pool ∨ ∃ cache, pool.cache.evict = some cache ∧
      (pool.makeRoom).1 = ({ pool with cache } : Pool).count .evictions := by
  unfold makeRoom
  split
  · exact .inl rfl
  · split
    · next cache evicted => exact .inr ⟨cache, evicted, rfl⟩
    · exact .inl rfl

theorem serves_makeRoom (pool : Pool) (absent : pool.cache.frames[page]? = none) :
    Serves page pool pool.makeRoom.1 ∧ pool.makeRoom.1.cache.frames[page]? = none := by
  rcases pool.makeRoom_cases with same | ⟨cache, evicted, same⟩
  · rw [same]
    exact ⟨.refl page pool, absent⟩
  · rw [same]
    refine ⟨serves_evict evicted absent _, ?_⟩
    obtain ⟨_, _, _, _, frames, _⟩ := Cache.of_evict evicted
    show cache.frames[page]? = none
    rw [frames, absent, ite_self]

theorem Serves.readPage_eq (h : Serves page pool later) (other : PageId) :
    later.readPage other = pool.readPage other := by
  simp only [readPage, Pool.file, h.tables, h.disk]

theorem file_eq_ok {table : TableId} {file : HeapFile} :
    pool.file table = .ok file ↔ pool.tables[table]? = some file := by
  unfold Pool.file
  cases pool.tables[table]? <;> simp

theorem exists_file_of_readPage {heap : HeapPage} (h : pool.readPage page = .ok heap) :
    ∃ file, pool.tables[page.table]? = some file ∧ file.readPage pool.disk page = .ok heap := by
  unfold readPage at h
  cases found : pool.file page.table with
  | error failure => simp [found, bind, Except.bind] at h
  | ok file =>
    simp only [found, bind, Except.bind] at h
    exact ⟨file, file_eq_ok.mp found, h⟩

theorem of_readPage {heap : HeapPage} (h : pool.readPage page = .ok heap) :
    heap.id = page ∧ heap.dirtiedBy = none := by
  obtain ⟨file, _, read⟩ := exists_file_of_readPage h
  exact HeapFile.of_readPage read

theorem exhausted_of_makeRoom {failure : Failure} (h : pool.makeRoom.2 = .error failure) :
    failure.isExhausted = true := by
  unfold makeRoom at h
  split at h
  · cases h
  · split at h
    · cases h
    · cases h
      rfl

inductive Pins (pool : Pool) (page : PageId) : Pool × Except Failure Nat → Prop
  | hit (resident : Resident) (present : pool.cache.frames[page]? = some resident)
      (room : resident.frame.pins + 1 ≠ 0) (stats : Statistics) :
      Pins pool page
        ({ pool with
            cache := pool.cache.update page
              { resident with frame := { resident.frame with pins := resident.frame.pins + 1 } }
            stats },
          .ok resident.stay)
  | crowded (resident : Resident) (present : pool.cache.frames[page]? = some resident)
      (full : resident.frame.pins + 1 = 0) (failure : Failure) :
      Pins pool page
        ({ pool with
            cache := pool.cache.update page
              { resident with frame := { resident.frame with pins := resident.frame.pins + 1 } } },
          .error failure)
  | unread (absent : pool.cache.frames[page]? = none) (stats : Statistics) (failure : Failure)
      (unread : pool.readPage page = .error failure) :
      Pins pool page ({ pool with stats }, .error failure)
  | homeless (absent : pool.cache.frames[page]? = none) (stats : Statistics) (failure : Failure)
      (exhausted : failure.isExhausted = true) :
      Pins pool page (({ pool with stats } : Pool).makeRoom.1, .error failure)
  | loaded (absent : pool.cache.frames[page]? = none) (stats : Statistics) (heap : HeapPage)
      (read : pool.readPage page = .ok heap) (later : Pool)
      (room : ({ pool with stats } : Pool).makeRoom = (later, .ok ())) :
      Pins pool page
        ({ later with cache := (later.cache.load heap).1 }, .ok (later.cache.load heap).2)

theorem pin_pins (pool : Pool) (page : PageId) : Pins pool page (pool.pin page) := by
  unfold pin
  cases present : pool.cache.frames[page]? with
  | some resident =>
    by_cases full : resident.frame.pins + 1 = 0
    · have crowded := Pins.crowded resident present full (.fault .addOverflow)
      simpa only [Frame.pin, full, ↓reduceIte] using crowded
    · simp only [Frame.pin, full, ↓reduceIte]
      exact .hit resident present full _
  | none =>
    simp only
    split
    · next failure unread => exact .unread present _ failure unread
    · next heap read =>
      split
      · next roomy failure made =>
        have first : ((pool.count .misses).count .read).makeRoom.1 = roomy := congrArg Prod.fst made
        have exhausted := exhausted_of_makeRoom (congrArg Prod.snd made)
        rw [← first]
        exact .homeless present ((pool.count .misses).count .read).stats failure exhausted
      · next roomy made =>
        exact .loaded present ((pool.count .misses).count .read).stats heap read roomy made

theorem serves_pin (pool : Pool) (page : PageId) : Serves page pool (pool.pin page).1 := by
  have users : ∀ resident, pool.cache.frames[page]? = some resident → Cache.Visits page pool.cache
      (pool.cache.update page
        { resident with frame := { resident.frame with pins := resident.frame.pins + 1 } }) :=
    fun resident present => Cache.visits_update (Cache.find?_of_cached present) rfl
  have counted := Serves.of_stats page pool
  have pins := pool.pin_pins page
  generalize pool.pin page = result at pins ⊢
  cases pins with
  | hit resident present room stats => exact .of_visits (users resident present) stats
  | crowded resident present full failure => exact .of_visits (users resident present) _
  | unread absent stats failure unread => exact counted stats
  | homeless absent stats failure exhausted =>
    have room := serves_makeRoom { pool with stats } absent
    exact .trans_load (counted stats) absent absent room.1
  | loaded absent stats heap read roomy made =>
    have room := serves_makeRoom { pool with stats } absent
    rw [congrArg Prod.fst made] at room
    have so_far : Serves page pool roomy := .trans_load (counted stats) absent absent room.1
    have read' := (so_far.readPage_eq page).trans read
    exact .trans_load so_far room.2 absent (serves_load room.2 read' (of_readPage read).1 _)

theorem of_pin_ok (h : (pool.pin page).2 = .ok stay) :
    ∃ resident, (pool.pin page).1.cache.frames[page]? = some resident ∧ resident.stay = stay ∧
      resident.frame.pins ≠ 0 := by
  have pins := pool.pin_pins page
  generalize pool.pin page = result at pins h ⊢
  cases pins with
  | hit resident present room stats =>
    cases h
    refine ⟨{ resident with frame := { resident.frame with pins := resident.frame.pins + 1 } }, ?_,
      rfl, room⟩
    exact (Cache.replaces_update present _).cached
  | crowded resident present full failure => cases h
  | unread absent stats failure unread => cases h
  | homeless absent stats failure exhausted => cases h
  | loaded absent stats heap read roomy made =>
    cases h
    refine ⟨⟨roomy.cache.nextStay, (Frame.load heap).pin.1⟩, ?_, rfl, ?_⟩
    · show (roomy.cache.load heap).1.frames[page]? = _
      rw [Cache.getElem?_load, if_pos (of_readPage read).1.symm]
    · show (0 : UInt32) + 1 ≠ 0
      decide

theorem size_makeRoom_le (pool : Pool) : pool.makeRoom.1.cache.size ≤ pool.cache.size := by
  rcases pool.makeRoom_cases with same | ⟨cache, evicted, same⟩
  · rw [same]
  · rw [same]
    exact Nat.le_of_lt (Cache.size_evict evicted).le

theorem size_lt_of_makeRoom (room : pool.makeRoom = (later, .ok ()))
    (fits : pool.cache.size ≤ pool.config.poolPages) :
    later.cache.size < pool.config.poolPages := by
  unfold makeRoom at room
  split at room
  · next free =>
    cases room
    exact free
  · split at room
    · next cache evicted =>
      cases room
      exact Nat.lt_of_lt_of_le (Cache.size_evict evicted).le fits
    · cases room

theorem size_pin (fits : pool.cache.size ≤ pool.config.poolPages) (page : PageId) :
    (pool.pin page).1.cache.size ≤ pool.config.poolPages := by
  have used : ∀ resident, (pool.cache.update page resident).size ≤ pool.config.poolPages :=
    fun resident => (pool.cache.size_update page resident).symm ▸ fits
  have pins := pool.pin_pins page
  generalize pool.pin page = result at pins ⊢
  cases pins with
  | hit resident present room stats => exact used _
  | crowded resident present full failure => exact used _
  | unread absent stats failure unread => exact fits
  | homeless absent stats failure exhausted =>
    exact Nat.le_trans (size_makeRoom_le { pool with stats }) fits
  | loaded absent stats heap read roomy made =>
    have room := size_lt_of_makeRoom made fits
    have gone := (serves_makeRoom { pool with stats } absent).2
    rw [made, ← (of_readPage read).1] at gone
    exact (Cache.size_load gone).le.trans room

theorem pin_of_absent (pool : Pool) {heap : HeapPage}
    (absent : pool.cache.frames[page]? = none) (read : pool.readPage page = .ok heap)
    (room : pool.cache.size < pool.config.poolPages) :
    ∃ stats, pool.pin page =
      ({ pool with cache := (pool.cache.load heap).1, stats }, .ok (pool.cache.load heap).2) := by
  have read' : (pool.count .misses).readPage page = .ok heap := read
  have room' : ((pool.count .misses).count .read).makeRoom =
      ((pool.count .misses).count .read, .ok ()) := if_pos room
  refine ⟨((pool.count .misses).count .read).stats, ?_⟩
  simp only [pin, absent, read', room']
  rfl

theorem pin_of_cached (present : pool.cache.frames[page]? = some resident)
    (room : resident.frame.pins + 1 ≠ 0) : (pool.pin page).2 = .ok resident.stay := by
  unfold pin
  simp only [present, Frame.pin, room, ↓reduceIte]

end Pool
end PagedTables
