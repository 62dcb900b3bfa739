import Mathlib.Data.List.Basic
import PagedTables.Proofs.Pool.Fresh

/-! Pools that differ in which clean pages their caches have, and in nothing else but their counts. What
is written, dropped and locked is the same in both. -/

namespace PagedTables.Pool

/-- The changes of a page that its file lacks. -/
def changed? (pool : Pool) (page : PageId) : Option HeapPage :=
  (pool.cache.frames[page]?.map fun resident => resident.frame.page).filter HeapPage.isDirty

/-- A page as it is for whoever fetches it. -/
def shown (pool : Pool) (page : PageId) : Except Failure HeapPage :=
  match pool.changed? page with
  | some heap => .ok heap
  | none => pool.readPage page

structure Alike (one other : Pool) : Prop where
  pageSize : one.config.pageSize = other.config.pageSize
  disk : one.disk = other.disk
  tables : one.tables = other.tables
  nextTable : one.nextTable = other.nextTable
  locks : one.locks = other.locks
  changed : ∀ page, one.changed? page = other.changed? page

variable {start : Disk} {pool later one other : Pool} {page place : PageId} {heap : HeapPage}
  {resident : Resident}

theorem Alike.refl (pool : Pool) : pool.Alike pool := ⟨rfl, rfl, rfl, rfl, rfl, fun _ => rfl⟩

theorem Alike.symm (alike : one.Alike other) : other.Alike one :=
  ⟨alike.pageSize.symm, alike.disk.symm, alike.tables.symm, alike.nextTable.symm, alike.locks.symm,
    fun page => (alike.changed page).symm⟩

theorem Alike.trans (alike : one.Alike other) (alike' : other.Alike later) : one.Alike later :=
  ⟨alike.pageSize.trans alike'.pageSize, alike.disk.trans alike'.disk,
    alike.tables.trans alike'.tables, alike.nextTable.trans alike'.nextTable,
    alike.locks.trans alike'.locks, fun page => (alike.changed page).trans (alike'.changed page)⟩

theorem Alike.file (alike : one.Alike other) (table : TableId) : one.file table = other.file table := by
  rw [Pool.file, Pool.file, alike.tables]

theorem Alike.readPage (alike : one.Alike other) (page : PageId) :
    one.readPage page = other.readPage page := by
  rw [Pool.readPage, Pool.readPage, alike.file, alike.disk]

theorem Alike.shown (alike : one.Alike other) (page : PageId) : one.shown page = other.shown page := by
  rw [Pool.shown, Pool.shown, alike.changed, alike.readPage]

theorem Alike.heldPages (alike : one.Alike other) (owner : TransactionId) :
    one.heldPages owner = other.heldPages owner := by
  rw [Pool.heldPages, Pool.heldPages, alike.locks]

theorem changed?_eq_some : pool.changed? page = some heap ↔ ∃ resident,
    pool.cache.frames[page]? = some resident ∧ resident.frame.page = heap ∧ heap.isDirty = true := by
  rw [changed?, Option.filter_eq_some_iff, Option.map_eq_some_iff]
  constructor
  · rintro ⟨⟨resident, present, same⟩, dirty⟩
    exact ⟨resident, present, same, dirty⟩
  · rintro ⟨resident, present, same, dirty⟩
    exact ⟨⟨resident, present, same⟩, dirty⟩

theorem changed?_of_absent (absent : pool.cache.frames[page]? = none) : pool.changed? page = none := by
  rw [changed?, absent, Option.map_none, Option.filter_none]

theorem changed?_of_cached (present : pool.cache.frames[page]? = some resident) :
    pool.changed? page =
      if resident.frame.page.isDirty then some resident.frame.page else none := by
  rw [changed?, present, Option.map_some, Option.filter_some]

theorem changed?_of_rested (same : later.cache.frames[page]?.map Resident.rested =
    pool.cache.frames[page]?.map Resident.rested) : later.changed? page = pool.changed? page := by
  have heaps := congrArg (Option.map fun resident => resident.frame.page) same
  rw [Option.map_map, Option.map_map] at heaps
  exact congrArg (Option.filter HeapPage.isDirty) heaps

theorem shown_congr (changed : later.changed? page = pool.changed? page)
    (read : later.readPage page = pool.readPage page) : later.shown page = pool.shown page := by
  rw [shown, shown, changed, read]

theorem Fresh.shown_cached (fresh : pool.Fresh start)
    (present : pool.cache.frames[page]? = some resident) :
    pool.shown page = .ok resident.frame.page := by
  unfold shown
  rw [changed?_of_cached present]
  split
  · next heap mark =>
    split at mark
    · cases mark
      rfl
    · cases mark
  · next mark =>
    split at mark
    · cases mark
    · next clean =>
      refine fresh.clean page resident present ?_
      rwa [HeapPage.isDirty, Bool.not_eq_true, Option.isSome_eq_false_iff, Option.isNone_iff_eq_none]
        at clean

theorem shown_absent (pool : Pool) (absent : pool.cache.frames[page]? = none) :
    pool.shown page = pool.readPage page := by
  unfold shown
  rw [changed?_of_absent absent]

theorem Fresh.absent_of_beyond (fresh : pool.Fresh start) {file : HeapFile}
    (registered : pool.tables[page.table]? = some file) (beyond : ¬file.Covers pool.disk page) :
    pool.cache.frames[page]? = none := by
  by_contra cached
  obtain ⟨resident, present⟩ := Option.ne_none_iff_exists'.mp cached
  obtain ⟨holder, housed⟩ := fresh.sound.housed _ resident present
  obtain rfl : file = holder := Option.some.inj (registered.symm.trans housed.table)
  exact beyond housed.covers

theorem Fresh.shown_lastPage (fresh : pool.Fresh start) {file : HeapFile} {disk : Disk}
    (registered : pool.tables[file.table]? = some file) (appends : file.Appends pool.disk disk) :
    ({ pool with disk } : Pool).shown (file.lastPage pool.disk) =
      .ok (.blank (file.lastPage pool.disk) file.schema file.layout) := by
  have own : pool.tables[(file.lastPage pool.disk).table]? = some file := registered
  have absent := fresh.absent_of_beyond own appends.beyond
  rw [shown_absent { pool with disk } absent, readPage_eq { pool with disk } own]
  exact appends.blank

theorem Serves.alike (serves : Serves page pool later) : pool.Alike later := by
  refine ⟨by rw [serves.config], serves.disk.symm, serves.tables.symm, serves.nextTable.symm,
    serves.locks.symm, fun place => Eq.symm ?_⟩
  by_cases here : place = page
  · subst here
    rcases serves.here with same | ⟨absent, resident, present, _, read⟩
    · exact changed?_of_rested same
    · rw [changed?_of_absent absent, changed?_of_cached present, HeapPage.isDirty,
        (of_readPage read).2]
      rfl
  · rcases serves.elsewhere place here with same | ⟨gone, resident, present, may⟩
    · exact changed?_of_rested (congrArg _ same)
    · rw [changed?_of_absent gone, changed?_of_cached present, if_neg]
      simp only [Frame.isEvictable, Bool.and_eq_true] at may
      simpa using may.2

theorem Alike.replaced (alike : one.Alike other) {resident resident' : Resident} {cache cache' : Cache}
    (replaces : Cache.Replaces page resident one.cache cache)
    (replaces' : Cache.Replaces page resident' other.cache cache')
    (same : resident.frame.page = resident'.frame.page) :
    Alike { one with cache } { other with cache := cache' } := by
  refine ⟨alike.pageSize, alike.disk, alike.tables, alike.nextTable, alike.locks, fun place => ?_⟩
  have before := alike.changed place
  simp only [changed?, replaces.frames, replaces'.frames] at before ⊢
  split
  · rw [Option.map_some, Option.map_some, same]
  · exact before

section Flush

theorem flushPage_latched (latched : pool.canFlush page = false) :
    pool.flushPage page = (pool, .error (.fault .latched)) := by
  unfold flushPage
  cases present : pool.cache.frames[page]? with
  | none => simp [canFlush, present] at latched
  | some resident =>
    rw [canFlush_of_cached present] at latched
    exact if_pos (by simp [latched])

theorem flushPage_clean (free : pool.canFlush page = true) (clean : pool.changed? page = none) :
    pool.flushPage page = (pool, .ok ()) := by
  unfold flushPage
  cases present : pool.cache.frames[page]? with
  | none => rfl
  | some resident =>
    rw [canFlush_of_cached present] at free
    rw [changed?_of_cached present] at clean
    split at clean
    · cases clean
    · next unmarked => exact (if_neg (by simp [free])).trans (if_neg unmarked)

theorem flushPage_fst_of_clean (clean : pool.changed? page = none) : (pool.flushPage page).1 = pool := by
  by_cases free : pool.canFlush page = true
  · rw [flushPage_clean free clean]
  · rw [flushPage_latched (Bool.not_eq_true _ ▸ free)]

def written (pool : Pool) (heap : HeapPage) : Except Failure Disk := do
  let file ← pool.file heap.id.table
  file.writePage pool.disk heap

theorem Alike.written (alike : one.Alike other) (heap : HeapPage) :
    one.written heap = other.written heap := by
  rw [Pool.written, Pool.written, alike.file, alike.disk]

theorem flushPage_changed (free : pool.canFlush page = true)
    (changed : pool.changed? page = some heap) :
    (∃ failure, pool.written heap = .error failure ∧ pool.flushPage page = (pool, .error failure)) ∨
    ∃ disk cache stats, pool.written heap = .ok disk ∧
      pool.flushPage page = ({ pool with disk, cache, stats }, .ok ()) ∧
      ∀ place, ({ pool with disk, cache, stats } : Pool).changed? place =
        if place = page then none else pool.changed? place := by
  obtain ⟨resident, present, rfl, dirty⟩ := changed?_eq_some.mp changed
  rw [canFlush_of_cached present] at free
  unfold flushPage Pool.written
  simp only [present, free, Bool.not_true, Bool.false_eq_true, if_false, dirty, if_true, writePage]
  cases pool.file resident.frame.page.id.table with
  | error failure => exact .inl ⟨failure, rfl, rfl⟩
  | ok file =>
    simp only [bind, Except.bind]
    cases file.writePage pool.disk resident.frame.page with
    | error failure => exact .inl ⟨failure, rfl, rfl⟩
    | ok disk =>
      have replaces := Cache.replaces_update present
        { resident.frame with page := resident.frame.page.markDirty none }
      refine .inr ⟨disk, _, _, rfl, rfl, fun place => ?_⟩
      simp only [changed?, replaces.frames]
      split
      · rfl
      · rfl

theorem flushPage_changed?_of_ne (apart : place ≠ page) :
    (pool.flushPage page).1.changed? place = pool.changed? place := by
  cases changed : pool.changed? page with
  | none => rw [flushPage_fst_of_clean changed]
  | some heap =>
    by_cases free : pool.canFlush page = true
    · rcases flushPage_changed free changed with
        ⟨failure, _, same⟩ | ⟨disk, cache, stats, _, same, after⟩
      · rw [same]
      · rw [same]
        exact (after place).trans (if_neg apart)
    · rw [flushPage_latched (Bool.not_eq_true _ ▸ free)]

theorem Alike.flushPage (alike : one.Alike other) (free : one.canFlush page = true)
    (free' : other.canFlush page = true) :
    (one.flushPage page).1.Alike (other.flushPage page).1 ∧
      (one.flushPage page).2 = (other.flushPage page).2 := by
  cases changed : one.changed? page with
  | none =>
    rw [flushPage_clean free changed,
      flushPage_clean free' ((alike.changed page).symm.trans changed)]
    exact ⟨alike, rfl⟩
  | some heap =>
    have flushed := flushPage_changed free changed
    have flushed' := flushPage_changed free' ((alike.changed page).symm.trans changed)
    rw [← alike.written] at flushed'
    rcases flushed with ⟨failure, write, same⟩ | ⟨disk, cache, stats, write, same, after⟩ <;>
      rcases flushed' with ⟨failure', write', same'⟩ | ⟨disk', cache', stats', write', same', after'⟩
    · obtain rfl := Except.error.inj (write.symm.trans write')
      rw [same, same']
      exact ⟨alike, rfl⟩
    · cases write.symm.trans write'
    · cases write.symm.trans write'
    · obtain rfl := Except.ok.inj (write.symm.trans write')
      rw [same, same']
      refine ⟨⟨alike.pageSize, rfl, alike.tables, alike.nextTable, alike.locks, fun place => ?_⟩, rfl⟩
      rw [after, after', alike.changed]

theorem Alike.flushEach (alike : one.Alike other) (free : one.Unlatched) (free' : other.Unlatched)
    (pages : List PageId) :
    (one.flushEach pages).1.Alike (other.flushEach pages).1 ∧
      (one.flushEach pages).2 = (other.flushEach pages).2 := by
  induction pages generalizing one other with
  | nil => exact ⟨alike, rfl⟩
  | cons page pages ih =>
    obtain ⟨flushed, same⟩ := alike.flushPage (free page) (free' page)
    have free := free.flushPage page
    have free' := free'.flushPage page
    simp only [Pool.flushEach]
    generalize one.flushPage page = result at flushed same free ⊢
    generalize other.flushPage page = result' at flushed same free' ⊢
    obtain ⟨later, answer⟩ := result
    obtain ⟨later', answer'⟩ := result'
    obtain rfl : answer = answer' := same
    cases answer with
    | error failure => exact ⟨flushed, rfl⟩
    | ok done => exact ih flushed free free'

theorem flushEach_filter (pages : List PageId) (once : pages.Nodup) (free : pool.Unlatched) :
    pool.flushEach pages = pool.flushEach (pages.filter fun page => (pool.changed? page).isSome) := by
  induction pages generalizing pool with
  | nil => rfl
  | cons page pages ih =>
    obtain ⟨apart, once⟩ := List.nodup_cons.mp once
    have still := free.flushPage page
    cases changed : pool.changed? page with
    | none =>
      rw [List.filter_cons_of_neg (by simp [changed])]
      simp only [flushEach, flushPage_clean (free page) changed]
      exact ih once free
    | some heap =>
      rw [List.filter_cons_of_pos (by simp [changed])]
      have kept : ∀ place ∈ pages,
          (pool.flushPage page).1.changed? place = pool.changed? place :=
        fun place member => flushPage_changed?_of_ne fun same => apart (same ▸ member)
      simp only [flushEach]
      generalize pool.flushPage page = result at kept still ⊢
      obtain ⟨later, answer⟩ := result
      cases answer with
      | error failure => rfl
      | ok done =>
        simp only
        rw [ih once still, List.filter_congr fun place member => by rw [kept place member]]

theorem mem_keys_changed : page ∈ (pool.cache.frames.keys.filter fun page =>
    (pool.changed? page).isSome) ↔ (pool.changed? page).isSome = true := by
  rw [List.mem_filter, Cache.mem_keys_iff]
  refine ⟨And.right, fun some => ⟨?_, some⟩⟩
  obtain ⟨heap, changed⟩ := Option.isSome_iff_exists.mp some
  obtain ⟨resident, present, _⟩ := changed?_eq_some.mp changed
  exact ⟨resident, present⟩

theorem Alike.keys_changed (alike : one.Alike other) :
    (one.cache.frames.keys.filter fun page => (one.changed? page).isSome) =
      other.cache.frames.keys.filter fun page => (other.changed? page).isSome := by
  have ordered := fun pool : Pool => (Std.ExtTreeMap.ordered_keys (t := pool.cache.frames)).filter
    fun page => (pool.changed? page).isSome
  have once := fun pool : Pool => pool.cache.frames.nodup_keys.filter
    fun page => (pool.changed? page).isSome
  refine List.Perm.eq_of_pairwise (fun first second _ _ below above => ?_) (ordered one)
    (ordered other) ((List.perm_ext_iff_of_nodup (once one) (once other)).mpr fun page => ?_)
  · have swapped := Std.OrientedCmp.gt_of_lt below
    rw [swapped] at above
    cases above
  · rw [mem_keys_changed, mem_keys_changed, alike.changed]

theorem Alike.flushAll (alike : one.Alike other) (free : one.Unlatched) (free' : other.Unlatched) :
    (one.flushAll).1.Alike (other.flushAll).1 ∧ one.flushAll.2 = other.flushAll.2 := by
  unfold Pool.flushAll
  rw [flushEach_filter _ one.cache.frames.nodup_keys free,
    flushEach_filter _ other.cache.frames.nodup_keys free', alike.keys_changed]
  exact alike.flushEach free free' _

end Flush

section Completion

theorem discardPage_changed (pool : Pool) (page : PageId) : ∃ cache stats,
    pool.discardPage page = { pool with cache, stats } ∧ ∀ place,
      ({ pool with cache, stats } : Pool).changed? place =
        if place = page then none else pool.changed? place := by
  have discards := pool.discardPage_discards page
  generalize pool.discardPage page = later at discards ⊢
  cases discards with
  | absent absent =>
    refine ⟨_, _, rfl, fun place => ?_⟩
    split
    · next here => exact here ▸ changed?_of_absent absent
    · rfl
  | dropped cache drops stats =>
    obtain ⟨_, _, frames, _⟩ := Cache.of_discard drops
    refine ⟨cache, stats, rfl, fun place => ?_⟩
    simp only [changed?, frames]
    split
    · rfl
    · rfl

theorem Alike.discardPage (alike : one.Alike other) (page : PageId) :
    (one.discardPage page).Alike (other.discardPage page) := by
  obtain ⟨cache, stats, same, after⟩ := one.discardPage_changed page
  obtain ⟨cache', stats', same', after'⟩ := other.discardPage_changed page
  rw [same, same']
  refine ⟨alike.pageSize, alike.disk, alike.tables, alike.nextTable, alike.locks, fun place => ?_⟩
  rw [after, after', alike.changed]

theorem Alike.discardEach (alike : one.Alike other) (pages : List PageId) :
    (one.discardEach pages).Alike (other.discardEach pages) := by
  induction pages generalizing one other with
  | nil => exact alike
  | cons page pages ih => exact ih (alike.discardPage page)

theorem Alike.relocked (alike : one.Alike other) (locks : LockManager) :
    Alike { one with locks } { other with locks } :=
  ⟨alike.pageSize, alike.disk, alike.tables, alike.nextTable, rfl, alike.changed⟩

theorem Alike.releaseAll (alike : one.Alike other) (owner : TransactionId) :
    (one.releaseAll owner).Alike (other.releaseAll owner) := by
  have relocked := alike.relocked (one.locks.releaseAll owner)
  simpa only [Pool.releaseAll, ← alike.locks] using relocked

theorem Alike.releasePage (alike : one.Alike other) (owner : TransactionId) (page : PageId) :
    (one.releasePage owner page).Alike (other.releasePage owner page) := by
  have relocked := alike.relocked (one.locks.release page owner)
  simpa only [Pool.releasePage, ← alike.locks] using relocked

theorem Alike.complete (alike : one.Alike other) (free : one.Unlatched) (free' : other.Unlatched)
    (owner : TransactionId) (commit : Bool) :
    (one.complete owner commit).1.Alike (other.complete owner commit).1 ∧
      (one.complete owner commit).2 = (other.complete owner commit).2 := by
  cases commit with
  | false =>
    refine ⟨?_, rfl⟩
    have dropped := alike.discardEach (one.heldPages owner)
    rw [alike.heldPages] at dropped
    have released := dropped.releaseAll owner
    rw [← alike.heldPages] at released
    simpa [Pool.complete, alike.heldPages] using released
  | true =>
    obtain ⟨flushed, same⟩ := alike.flushEach free free' (one.heldPages owner)
    simp only [Pool.complete, if_true, flushHeld, ← alike.heldPages]
    generalize one.flushEach (one.heldPages owner) = result at flushed same ⊢
    generalize other.flushEach (one.heldPages owner) = result' at flushed same ⊢
    obtain ⟨later, answer⟩ := result
    obtain ⟨later', answer'⟩ := result'
    obtain rfl : answer = answer' := same
    cases answer with
    | error failure => exact ⟨flushed, rfl⟩
    | ok done => exact ⟨flushed.releaseAll owner, rfl⟩

end Completion

section Register

theorem Alike.rewritten (alike : one.Alike other) (disk : Disk) :
    Alike { one with disk } { other with disk } :=
  ⟨alike.pageSize, rfl, alike.tables, alike.nextTable, alike.locks, alike.changed⟩

theorem Alike.register (alike : one.Alike other) (made : Except Failure HeapFile) :
    (one.register made).1.Alike (other.register made).1 ∧
      (one.register made).2 = (other.register made).2 := by
  have next : one.nextTable + 1 = other.nextTable + 1 := congrArg (· + 1) alike.nextTable
  unfold Pool.register
  cases made with
  | error failure =>
    exact ⟨⟨alike.pageSize, alike.disk, alike.tables, next, alike.locks, alike.changed⟩, rfl⟩
  | ok file =>
    have tables : one.tables.insert ⟨one.nextTable⟩ file =
        other.tables.insert ⟨other.nextTable⟩ file := by
      rw [alike.tables, alike.nextTable]
    exact ⟨⟨alike.pageSize, alike.disk, tables, next, alike.locks, alike.changed⟩,
      by rw [alike.nextTable]⟩

theorem Alike.createTable (alike : one.Alike other) (name : String) (schema : Schema) :
    (one.createTable name schema).1.Alike (other.createTable name schema).1 ∧
      (one.createTable name schema).2 = (other.createTable name schema).2 := by
  have same : HeapFile.create one.disk name ⟨one.nextTable⟩ schema one.config.pageSize =
      HeapFile.create other.disk name ⟨other.nextTable⟩ schema other.config.pageSize := by
    rw [alike.disk, alike.nextTable, alike.pageSize]
  unfold Pool.createTable
  rw [← same]
  obtain ⟨disk, made⟩ := HeapFile.create one.disk name ⟨one.nextTable⟩ schema one.config.pageSize
  exact (alike.rewritten disk).register made

theorem Alike.openTable (alike : one.Alike other) (name : String) (schema : Schema) :
    (one.openTable name schema).1.Alike (other.openTable name schema).1 ∧
      (one.openTable name schema).2 = (other.openTable name schema).2 := by
  have same : HeapFile.attach one.disk name ⟨one.nextTable⟩ schema one.config.pageSize =
      HeapFile.attach other.disk name ⟨other.nextTable⟩ schema other.config.pageSize := by
    rw [alike.disk, alike.nextTable, alike.pageSize]
  unfold Pool.openTable
  rw [← same]
  exact alike.register _

end Register

end PagedTables.Pool
