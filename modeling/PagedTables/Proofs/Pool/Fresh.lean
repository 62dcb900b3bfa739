import PagedTables.Proofs.Pool.Flush
import PagedTables.Proofs.Pool.Steps

/-! A clean page in the cache is what a read from its file gives, so it can leave the cache unwritten
and come back the same. -/

namespace PagedTables.Pool

structure Fresh (start : Disk) (pool : Pool) : Prop where
  sound : pool.Sound start
  clean : ∀ (page : PageId) (resident : Resident), pool.cache.frames[page]? = some resident →
    resident.frame.page.dirtiedBy = none → pool.readPage page = .ok resident.frame.page
  fits : pool.cache.size ≤ pool.config.poolPages
  places : 0 < pool.config.poolPages

variable {start : Disk} {pool later : Pool} {page : PageId} {file : HeapFile} {heap after : HeapPage}
  {owner : TransactionId} {resident : Resident}

theorem readPage_eq (pool : Pool) (registered : pool.tables[page.table]? = some file) :
    pool.readPage page = file.readPage pool.disk page := by
  simp only [readPage, Pool.file, registered, bind, Except.bind]

theorem Houses.written (housed : pool.Houses page heap file) (written : heap.Written owner after) :
    pool.Houses page after file :=
  ⟨housed.table, written.id.trans housed.id, written.schema.trans housed.schema,
    written.layout.trans housed.layout, written.sound housed.sound, housed.covers⟩

theorem Sound.changes (sound : pool.Sound start) {stay : Nat} {change : HeapPage → HeapPage}
    {cache : Cache} (h : Cache.Rewrites page stay change pool.cache cache)
    (houses : ∀ heap file, pool.Houses page heap file → pool.Houses page (change heap) file) :
    ({ pool with cache } : Pool).Sound start := by
  refine sound.keeps rfl rfl rfl sound.valid sound.indexed (fun other resident present => ?_)
    (sound.stays.rewrites h)
  obtain ⟨before, found, same | ⟨rfl, _, same⟩⟩ := h.cases present
  · obtain ⟨_, id, heap⟩ := Resident.rested_eq_iff.mp same
    rw [id, heap]
    exact sound.entries other before found
  · obtain ⟨_, id, heap⟩ := Resident.rested_eq_iff.mp same
    have heap : resident.frame.page = change before.frame.page := heap
    obtain ⟨named, file, housed⟩ := sound.entries other before found
    exact ⟨id.trans named, file, heap ▸ houses _ file housed⟩

theorem Houses.result (access : Access) (housed : pool.Houses page heap file) :
    pool.Houses page (access.result heap).1 file := by
  rcases access.result_cases heap with still | ⟨_, written⟩
  · rwa [still]
  · exact housed.written written

theorem Sound.rewrites (sound : pool.Sound start) {access : Access} {stay : Nat} {cache : Cache}
    (h : Cache.Rewrites access.page stay (fun heap => (access.result heap).1) pool.cache cache) :
    ({ pool with cache } : Pool).Sound start :=
  sound.changes h fun _ _ housed => housed.result access

theorem Registers.tables (h : Registers pool later) {table : TableId}
    (registered : pool.tables[table]? = some file) : later.tables[table]? = some file := by
  cases h with
  | failed disk grows nextTable => exact registered
  | added disk grows nextTable other free holder proper same isFile fresh =>
    have apart : ¬compare other table = .eq := by
      intro equal
      rw [Std.LawfulEqOrd.compare_eq_iff_eq.mp equal, registered] at free
      cases free
    exact Std.ExtTreeMap.getElem?_insert.trans ((if_neg apart).trans registered)

theorem Registers.contents (h : Registers pool later) (path : String) :
    later.disk.contents path = pool.disk.contents path := by
  cases h with
  | failed disk grows nextTable => exact grows.contents path
  | added disk grows nextTable other free holder proper same isFile fresh => exact grows.contents path

theorem Registers.readPage_eq (h : Registers pool later)
    (registered : pool.tables[page.table]? = some file) :
    later.readPage page = pool.readPage page := by
  rw [Pool.readPage_eq pool registered, Pool.readPage_eq later (h.tables registered)]
  exact HeapFile.readPage_congr (h.contents _)

theorem fresh_start {config : Config} (small : config.pageSize < 2 ^ 32)
    (h : Pool.start config start = .ok pool) : pool.Fresh start := by
  have sound := sound_start small h
  unfold Pool.start at h
  split at h
  · cases h
  · next some =>
    split at h
    · cases h
    · cases h
      refine ⟨sound, fun page resident present => ?_, Nat.zero_le _, Nat.pos_of_ne_zero some⟩
      simp [Cache.empty] at present

section Preservation

variable (fresh : pool.Fresh start)
include fresh

theorem Fresh.serves (h : Serves page pool later)
    (size : later.cache.size ≤ pool.config.poolPages) : later.Fresh start where
  sound := fresh.sound.serves h
  clean other resident present clean := by
    rw [h.readPage_eq]
    rcases h.cases present with ⟨before, found, same⟩ | ⟨rfl, _, _, read⟩
    · have heap := (Resident.rested_eq_iff.mp same).2.2
      rw [heap] at clean ⊢
      exact fresh.clean other before found clean
    · exact read
  fits := h.config ▸ size
  places := h.config ▸ fresh.places

theorem Fresh.visits {cache : Cache} (h : Cache.Visits page pool.cache cache) :
    ({ pool with cache } : Pool).Fresh start :=
  fresh.serves (.of_visits h pool.stats) (Nat.le_trans h.size_le fresh.fits)

theorem Fresh.relocked {locks : LockManager} (valid : locks.table.Valid)
    (indexed : locks.table.Indexed) (stats : Statistics) :
    ({ pool with locks, stats } : Pool).Fresh start :=
  ⟨fresh.sound.relocked valid indexed stats, fresh.clean, fresh.fits, fresh.places⟩

theorem Fresh.extended {locks : LockManager} (further : pool.locks.table.Extends locks.table)
    (stats : Statistics) : ({ pool with locks, stats } : Pool).Fresh start :=
  fresh.relocked (further.valid fresh.sound.valid) (further.indexed fresh.sound.indexed) stats

theorem Fresh.changes {stay : Nat} {change : HeapPage → HeapPage} {cache : Cache}
    (h : Cache.Rewrites page stay change pool.cache cache)
    (houses : ∀ heap file, pool.Houses page heap file → pool.Houses page (change heap) file)
    (marks : ∀ resident, pool.cache.frames[page]? = some resident → resident.stay = stay →
      change resident.frame.page = resident.frame.page ∨
        (change resident.frame.page).dirtiedBy ≠ none) :
    ({ pool with cache } : Pool).Fresh start where
  sound := fresh.sound.changes h houses
  clean other resident present clean := by
    show pool.readPage other = _
    obtain ⟨before, found, same | ⟨rfl, stays, same⟩⟩ := h.cases present
    · have heap := (Resident.rested_eq_iff.mp same).2.2
      rw [heap] at clean ⊢
      exact fresh.clean other before found clean
    · have heap : resident.frame.page = change before.frame.page :=
        (Resident.rested_eq_iff.mp same).2.2
      rw [heap] at clean ⊢
      rcases marks before found stays with still | marked
      · rw [still] at clean ⊢
        exact fresh.clean other before found clean
      · exact absurd clean marked
  fits := Nat.le_trans h.size_le fresh.fits
  places := fresh.places

theorem Fresh.rewrites {access : Access} {stay : Nat} {cache : Cache}
    (h : Cache.Rewrites access.page stay (fun heap => (access.result heap).1) pool.cache cache) :
    ({ pool with cache } : Pool).Fresh start := by
  refine fresh.changes h (fun _ _ housed => housed.result access) fun resident _ _ => ?_
  rcases access.result_cases resident.frame.page with still | ⟨_, written⟩
  · exact .inl still
  · exact .inr (by simp [written.mark])

theorem Fresh.discards {cache : Cache} (h : pool.cache.discard page = some cache)
    (stats : Statistics) : ({ pool with cache, stats } : Pool).Fresh start where
  sound := fresh.sound.discards h stats
  clean other resident present clean := by
    obtain ⟨_, _, frames, _⟩ := Cache.of_discard h
    exact fresh.clean other resident (Cache.cached_of_left frames present).2 clean
  fits := Nat.le_trans (Nat.le_of_lt (Cache.size_discard h).le) fresh.fits
  places := fresh.places

theorem Fresh.readPage_appends {disk : Disk} {table : TableId} {holder : HeapFile}
    (registered : pool.tables[table]? = some file) (h : file.Appends pool.disk disk)
    (found : pool.tables[page.table]? = some holder) (covers : holder.Covers pool.disk page) :
    ({ pool with disk } : Pool).readPage page = pool.readPage page := by
  refine fresh.sound.readPage_eq registered h.elsewhere fun same => h.kept page same ?_
  rintro rfl
  have own := (fresh.sound.proper _ _ registered).2.1
  have found : pool.tables[file.table]? = some holder := found
  rw [own, registered, Option.some.injEq] at found
  exact h.beyond (found ▸ covers)

theorem Fresh.appends {disk : Disk} {table : TableId}
    (registered : pool.tables[table]? = some file) (h : file.Appends pool.disk disk) :
    ({ pool with disk } : Pool).Fresh start where
  sound := fresh.sound.rewritten registered h.elsewhere h.isFile fun _ => h.covers
  clean other resident present clean := by
    obtain ⟨holder, housed⟩ := fresh.sound.housed _ resident present
    rw [fresh.readPage_appends registered h housed.table housed.covers]
    exact fresh.clean other resident present clean
  fits := fresh.fits
  places := fresh.places

theorem Fresh.registers (h : Registers pool later) : later.Fresh start := by
  have sound := h.sound fresh.sound
  -- No cached page is one of the table that is new.
  have same : ∀ (page : PageId) (resident : Resident), pool.cache.frames[page]? = some resident →
      later.readPage page = pool.readPage page := by
    intro page resident present
    obtain ⟨holder, housed⟩ := fresh.sound.housed page resident present
    exact h.readPage_eq housed.table
  cases h with
  | failed disk grows nextTable =>
    exact ⟨sound, fun page resident present clean =>
      (same page resident present).trans (fresh.clean page resident present clean), fresh.fits,
      fresh.places⟩
  | added disk grows nextTable table free file proper named isFile fresh' =>
    exact ⟨sound, fun page resident present clean =>
      (same page resident present).trans (fresh.clean page resident present clean), fresh.fits,
      fresh.places⟩

theorem Fresh.flushes {cache : Cache} {disk : Disk}
    (present : pool.cache.frames[page]? = some resident)
    (registered : pool.tables[resident.frame.page.id.table]? = some file)
    (writes : file.writePage pool.disk resident.frame.page = .ok disk)
    (replaces : Cache.Replaces page
      ⟨resident.stay, { resident.frame with page := resident.frame.page.markDirty none }⟩
      pool.cache cache) (stats : Statistics) :
    ({ pool with cache, stats, disk } : Pool).Fresh start ∧
      file.Writes pool.disk resident.frame.page disk ∧ resident.frame.page.id = page := by
  obtain ⟨sound, stored, housed⟩ :=
    fresh.sound.flushes present registered writes replaces stats
  refine ⟨⟨sound, fun other found here clean => ?_,
    Nat.le_trans (replaces.size_le present) fresh.fits, fresh.places⟩, stored, housed.id⟩
  have reads : ({ pool with cache, stats, disk } : Pool).readPage other =
      ({ pool with disk } : Pool).readPage other := rfl
  rw [reads]
  rcases replaces.cases here with ⟨rfl, rfl⟩ | ⟨apart, here⟩
  · rw [readPage_eq { pool with disk } housed.table]
    exact housed.id ▸ stored.read
  · rw [fresh.sound.readPage_eq housed.table stored.elsewhere fun table => ?_]
    · exact fresh.clean other found here clean
    · exact stored.kept other table (housed.id.symm ▸ apart)

theorem Fresh.flushPage (page : PageId) : (pool.flushPage page).1.Fresh start := by
  have flushes := pool.flushPage_flushes page
  generalize pool.flushPage page = result at flushes ⊢
  cases flushes with
  | absent absent => exact fresh
  | clean resident present clean => exact fresh
  | failed failure => exact fresh
  | written resident present writer dirty file registered disk writes cache replaces stats =>
    exact (fresh.flushes present registered writes replaces stats).1

theorem Fresh.discardPage (page : PageId) : (pool.discardPage page).Fresh start := by
  have discards := pool.discardPage_discards page
  generalize pool.discardPage page = result at discards ⊢
  cases discards with
  | absent absent => exact fresh
  | dropped cache drops stats => exact fresh.discards drops stats

theorem Fresh.releaseAll (owner : TransactionId) : (pool.releaseAll owner).Fresh start := by
  have valid : (pool.locks.releaseAll owner).table.Valid := fresh.sound.valid.releaseAll owner
  exact fresh.relocked valid (fresh.sound.indexed.releaseAll owner) pool.stats

theorem Fresh.releasePage (owner : TransactionId) (page : PageId) :
    (pool.releasePage owner page).Fresh start := by
  have valid : (pool.locks.release page owner).table.Valid := fresh.sound.valid.release page owner
  exact fresh.relocked valid (fresh.sound.indexed.release page owner) pool.stats

end Preservation

theorem Fresh.flushEach (pages : List PageId) (fresh : pool.Fresh start) :
    (pool.flushEach pages).1.Fresh start :=
  flushEach_keeps (fun pool => pool.Fresh start) (fun _ page fresh => fresh.flushPage page) pages
    fresh

/-- A page that may leave the cache comes back as it was, for whoever fetches it next. -/
theorem Fresh.evict_fetch (fresh : pool.Fresh start)
    (present : pool.cache.frames[page]? = some resident)
    (may : resident.frame.isEvictable = true) {cache : Cache}
    (evicted : cache.frames = pool.cache.frames.erase page) (owner : TransactionId)
    (mode : LockMode) :
    ∃ fetched stay later,
      Access.pin ⟨owner, page, .guard mode, .pin⟩ { pool with cache } =
        (fetched, .running (.access ⟨owner, page, .guard mode, .use stay⟩)) ∧
      Access.use ⟨owner, page, .guard mode, .use stay⟩ fetched stay =
        (later, .finished (.guarded ⟨page, stay, mode = .exclusive⟩)) ∧
      later.view ⟨page, stay, mode = .exclusive⟩ = some resident.frame.page := by
  have clean : resident.frame.page.dirtiedBy = none := by
    simp only [Frame.isEvictable, HeapPage.isDirty, Bool.and_eq_true] at may
    simpa using may.2
  have read := fresh.clean page resident present clean
  have named := (of_readPage read).1
  have absent : cache.frames[page]? = none := by
    rw [evicted, Std.ExtTreeMap.getElem?_erase, if_pos (Std.LawfulEqOrd.compare_eq_iff_eq.mpr rfl)]
  have room : cache.size < pool.config.poolPages := by
    refine Nat.lt_of_lt_of_le (Cache.size_lt (fun other entry here => ?_) present absent) fresh.fits
    rw [evicted, Std.ExtTreeMap.getElem?_erase] at here
    split at here
    · cases here
    · exact ⟨entry, here⟩
  -- The place of the page is free again, so it is read, and a page that is clean is read as it was.
  obtain ⟨stats, pinned⟩ := pin_of_absent { pool with cache } absent read room
  have loaded : (cache.load resident.frame.page).1.frames[page]? =
      some ⟨cache.nextStay, (Frame.load resident.frame.page).pin.1⟩ := by
    rw [Cache.getElem?_load, if_pos named.symm]
  obtain ⟨latch, last, used, replaces, _⟩ := Access.use_guarded
    { pool with cache := (cache.load resident.frame.page).1, stats } owner mode loaded rfl
  refine ⟨_, _, { pool with cache := last, stats }, ?_, used, ?_⟩
  · simp only [Access.pin, pinned]
    rfl
  · have here : ({ pool with cache := last, stats } : Pool).cache.frames[page]? = _ :=
      replaces.cached
    have view := view_cached ⟨page, cache.nextStay, mode = .exclusive⟩ here rfl
    exact view

end PagedTables.Pool
