import PagedTables.Pool.Completion
import PagedTables.Proofs.Lock.Hold
import PagedTables.Proofs.Pool.Use

/-! What holds of a pool whatever its transactions do: tables have files of their own, nothing else on
the disk is touched, and each cached page is a page of its table's file. -/

namespace PagedTables.Pool

/-- A cached page is named by its place, fits its table's file and lies in it. -/
structure Houses (pool : Pool) (page : PageId) (heap : HeapPage) (file : HeapFile) : Prop where
  table : pool.tables[page.table]? = some file
  id : heap.id = page
  schema : heap.schema = file.schema
  layout : heap.layout = file.layout
  sound : heap.Sound
  covers : file.Covers pool.disk page

/-- What holds of every pool that began on the disk `start`. -/
structure Sound (start : Disk) (pool : Pool) : Prop where
  small : pool.config.pageSize < 2 ^ 32
  proper : ∀ (table : TableId) (file : HeapFile), pool.tables[table]? = some file →
    file.Proper ∧ file.table = table ∧ pool.disk.IsFile file.path
  apart : ∀ (table other : TableId) (file file' : HeapFile), pool.tables[table]? = some file →
    pool.tables[other]? = some file' → file.path = file'.path → table = other
  untouched : ∀ path, (∀ (table : TableId) (file : HeapFile), pool.tables[table]? = some file →
    file.path ≠ path) → pool.disk.contents path = start.contents path
  named : ∀ (page : PageId) (resident : Resident), pool.cache.frames[page]? = some resident →
    resident.frame.id = page
  housed : ∀ (page : PageId) (resident : Resident), pool.cache.frames[page]? = some resident →
    ∃ file, pool.Houses page resident.frame.page file
  stays : pool.cache.Distinct
  valid : pool.locks.table.Valid
  indexed : pool.locks.table.Indexed

variable {start : Disk} {pool later : Pool} {page other : PageId} {file : HeapFile} {heap : HeapPage}

theorem mem_heldPages_iff {owner : TransactionId} (indexed : pool.locks.table.Indexed) :
    page ∈ pool.heldPages owner ↔ pool.locks.table.Holds owner page .shared := by
  rw [heldPages, Std.ExtTreeSet.mem_toList, LockTable.mem_heldBy_iff indexed]

theorem start_eq {config : Config} (made : Pool.start config start = .ok pool) :
    pool =
      { config, disk := start, tables := ∅, nextTable := 0, locks := .empty, cache := .empty
        stats := .zero } := by
  unfold Pool.start at made
  split at made
  · cases made
  · split at made
    · cases made
    · exact (Except.ok.inj made).symm

theorem sound_start {config : Config} (small : config.pageSize < 2 ^ 32)
    (h : Pool.start config start = .ok pool) : pool.Sound start := by
  obtain rfl := start_eq h
  refine ⟨small, ?_, ?_, fun _ _ => rfl, ?_, ?_, Cache.distinct_empty, LockTable.valid_empty,
    LockTable.indexed_empty⟩
  · intro table file found
    simp at found
  · intro table other file file' found
    simp at found
  · intro page resident present
    simp [Cache.empty] at present
  · intro page resident present
    simp [Cache.empty] at present

theorem Houses.congr (h : pool.Houses page heap file) (tables : later.tables = pool.tables)
    (extent : file.Covers pool.disk page → file.Covers later.disk page) :
    later.Houses page heap file :=
  ⟨tables ▸ h.table, h.id, h.schema, h.layout, h.sound, extent h.covers⟩

theorem Sound.of_readPage (sound : pool.Sound start) (h : pool.readPage page = .ok heap) :
    ∃ file, pool.Houses page heap file ∧ heap.dirtiedBy = none ∧
      file.readPage pool.disk page = .ok heap := by
  obtain ⟨file, table, read⟩ := exists_file_of_readPage h
  obtain ⟨proper, same, _⟩ := sound.proper page.table file table
  obtain ⟨covers, heapSound, id, schema, layout, clean⟩ := proper.of_read same.symm read
  exact ⟨file, ⟨table, id, schema, layout, heapSound, covers⟩, clean, read⟩

theorem Sound.keeps (sound : pool.Sound start) (config : later.config = pool.config)
    (disk : later.disk = pool.disk) (tables : later.tables = pool.tables)
    (valid : later.locks.table.Valid) (indexed : later.locks.table.Indexed)
    (entries : ∀ (page : PageId) (resident : Resident),
      later.cache.frames[page]? = some resident →
        resident.frame.id = page ∧ ∃ file, pool.Houses page resident.frame.page file)
    (stays : later.cache.Distinct) : later.Sound start where
  small := config ▸ sound.small
  proper table file found := disk ▸ sound.proper table file (tables ▸ found)
  apart table other file file' found found' :=
    sound.apart table other file file' (tables ▸ found) (tables ▸ found')
  untouched path free := disk ▸ sound.untouched path fun table file found =>
    free table file (tables.symm ▸ found)
  named page resident present := (entries page resident present).1
  housed page resident present :=
    (entries page resident present).2.imp fun _ housed => housed.congr tables (disk ▸ id)
  stays
  valid
  indexed

theorem Sound.entries (sound : pool.Sound start) (page : PageId) (resident : Resident)
    (present : pool.cache.frames[page]? = some resident) :
    resident.frame.id = page ∧ ∃ file, pool.Houses page resident.frame.page file :=
  ⟨sound.named page resident present, sound.housed page resident present⟩

theorem Sound.relocked (sound : pool.Sound start) {locks : LockManager}
    (valid : locks.table.Valid) (indexed : locks.table.Indexed) (stats : Statistics) :
    ({ pool with locks, stats } : Pool).Sound start :=
  sound.keeps rfl rfl rfl valid indexed sound.entries sound.stays

theorem Sound.same_or_apart (sound : pool.Sound start) {table : TableId} {holder : HeapFile}
    (registered : pool.tables[table]? = some file) (found : pool.tables[other.table]? = some holder) :
    holder = file ∧ other.table = file.table ∨ holder.path ≠ file.path := by
  by_cases same : holder.path = file.path
  · have tables := sound.apart _ _ _ _ found registered same
    obtain rfl : holder = file := Option.some.inj (found.symm.trans (tables ▸ registered))
    exact .inl ⟨rfl, (sound.proper _ _ found).2.1.symm⟩
  · exact .inr same

theorem Sound.rewritten (sound : pool.Sound start) {disk : Disk} {table : TableId}
    (registered : pool.tables[table]? = some file)
    (elsewhere : ∀ path, path ≠ file.path → disk.contents path = pool.disk.contents path)
    (isFile : ∀ path, pool.disk.IsFile path → disk.IsFile path)
    (covers : ∀ page, file.Covers pool.disk page → file.Covers disk page) :
    ({ pool with disk } : Pool).Sound start where
  small := sound.small
  proper other file found := (sound.proper other file found).imp id (And.imp id (isFile _))
  apart := sound.apart
  untouched path free :=
    (elsewhere path fun same => free table file registered same.symm).trans
      (sound.untouched path free)
  named := sound.named
  housed page resident present := by
    obtain ⟨holder, housed⟩ := sound.housed page resident present
    refine ⟨holder, housed.congr rfl fun inside => ?_⟩
    rcases sound.same_or_apart registered housed.table with ⟨rfl, _⟩ | apart
    · exact covers page inside
    · exact (HeapFile.covers_congr (elsewhere holder.path apart)).mpr inside
  stays := sound.stays
  valid := sound.valid
  indexed := sound.indexed

theorem Sound.stored_eq (sound : pool.Sound start) {disk : Disk} {table : TableId}
    {holder : HeapFile} (registered : pool.tables[table]? = some file)
    (elsewhere : ∀ path, path ≠ file.path → disk.contents path = pool.disk.contents path)
    (found : pool.tables[page.table]? = some holder)
    (here : page.table = file.table → file.stored disk page = file.stored pool.disk page) :
    holder.stored disk page = holder.stored pool.disk page := by
  rcases sound.same_or_apart registered found with ⟨rfl, same⟩ | apart
  · exact here same
  · exact HeapFile.stored_congr (HeapFile.readPage_congr (elsewhere holder.path apart))

theorem Sound.readPage_eq (sound : pool.Sound start) {disk : Disk} {table : TableId}
    (registered : pool.tables[table]? = some file)
    (elsewhere : ∀ path, path ≠ file.path → disk.contents path = pool.disk.contents path)
    (here : page.table = file.table → file.readPage disk page = file.readPage pool.disk page) :
    ({ pool with disk } : Pool).readPage page = pool.readPage page := by
  unfold readPage Pool.file
  cases found : pool.tables[page.table]? with
  | none => simp only [bind, Except.bind]
  | some holder =>
    simp only [bind, Except.bind]
    rcases sound.same_or_apart registered found with ⟨rfl, same⟩ | apart
    · exact here same
    · exact HeapFile.readPage_congr (elsewhere holder.path apart)

theorem Serves.cases {resident : Resident} (h : Serves page pool later)
    (present : later.cache.frames[other]? = some resident) :
    (∃ before, pool.cache.frames[other]? = some before ∧ resident.rested = before.rested) ∨
      other = page ∧ pool.cache.frames[page]? = none ∧ resident.frame.id = page ∧
        pool.readPage page = .ok resident.frame.page := by
  by_cases same : other = page
  · subst same
    rcases h.here with kept | ⟨absent, loaded, here, named, read⟩
    · rw [present, Option.map_some, eq_comm, Option.map_eq_some_iff] at kept
      obtain ⟨before, found, same⟩ := kept
      exact .inl ⟨before, found, same.symm⟩
    · rw [present, Option.some.injEq] at here
      subst here
      exact .inr ⟨rfl, absent, named, read⟩
  · rcases h.elsewhere other same with kept | ⟨gone, _⟩
    · exact .inl ⟨resident, kept ▸ present, rfl⟩
    · rw [gone] at present
      cases present

theorem Sound.serves (sound : pool.Sound start) (h : Serves page pool later) :
    later.Sound start := by
  refine sound.keeps h.config h.disk h.tables (h.locks ▸ sound.valid) (h.locks ▸ sound.indexed)
    (fun other resident present => ?_) (h.distinct sound.stays)
  rcases h.cases present with ⟨before, found, same⟩ | ⟨rfl, _, named, read⟩
  · obtain ⟨_, id, heap⟩ := Resident.rested_eq_iff.mp same
    rw [id, heap]
    exact sound.entries other before found
  · obtain ⟨file, housed, _⟩ := sound.of_readPage read
    exact ⟨named, file, housed⟩

theorem Sound.replaces (sound : pool.Sound start) {cache : Cache} {resident : Resident}
    {frame : Frame} (present : pool.cache.frames[page]? = some resident)
    (h : Cache.Replaces page ⟨resident.stay, frame⟩ pool.cache cache)
    (id : frame.id = resident.frame.id) (housed : pool.Houses page frame.page file)
    (stats : Statistics) : ({ pool with cache, stats } : Pool).Sound start := by
  refine sound.keeps rfl rfl rfl sound.valid sound.indexed (fun other found here => ?_)
    (sound.stays.replaces present (by rfl) h)
  rcases h.cases here with ⟨rfl, rfl⟩ | ⟨_, here⟩
  · exact ⟨id.trans (sound.named other resident present), file, housed⟩
  · exact sound.entries other found here

theorem Sound.discards (sound : pool.Sound start) {cache : Cache}
    (h : pool.cache.discard page = some cache) (stats : Statistics) :
    ({ pool with cache, stats } : Pool).Sound start := by
  obtain ⟨_, _, frames, _⟩ := Cache.of_discard h
  refine sound.keeps rfl rfl rfl sound.valid sound.indexed (fun other found here => ?_)
    (sound.stays.discards h)
  exact sound.entries other found (Cache.cached_of_left frames here).2

theorem Sound.register (sound : pool.Sound start) {disk : Disk} (grows : pool.disk.Grows disk)
    {table : TableId} (free : pool.tables[table]? = none) (proper : file.Proper)
    (same : file.table = table) (isFile : disk.IsFile file.path)
    (fresh : ∀ (other : TableId) (file' : HeapFile), pool.tables[other]? = some file' →
      file'.path ≠ file.path) (nextTable : UInt32) :
    ({ pool with disk, tables := pool.tables.insert table file, nextTable } : Pool).Sound start := by
  have entries : ∀ (other : TableId) (found : HeapFile),
      (pool.tables.insert table file)[other]? = some found →
        other = table ∧ found = file ∨ other ≠ table ∧ pool.tables[other]? = some found := by
    intro other found here
    rw [Std.ExtTreeMap.getElem?_insert] at here
    split at here
    · next equal =>
      exact .inl ⟨(Std.LawfulEqOrd.compare_eq_iff_eq.mp equal).symm, (Option.some.inj here).symm⟩
    · next apart =>
      exact .inr ⟨fun equal => apart (Std.LawfulEqOrd.compare_eq_iff_eq.mpr equal.symm), here⟩
  -- As the id is free, no table makes place for the new one.
  have kept : ∀ (other : TableId) (found : HeapFile), pool.tables[other]? = some found →
      (pool.tables.insert table file)[other]? = some found := by
    intro other found here
    have apart : table ≠ other := by
      rintro rfl
      rw [free] at here
      cases here
    rw [Std.ExtTreeMap.getElem?_insert, if_neg fun equal =>
      apart (Std.LawfulEqOrd.compare_eq_iff_eq.mp equal), here]
  refine ⟨sound.small, fun other found here => ?_, fun first second a b here here' equal => ?_,
    fun path unused => ?_, sound.named, fun page resident present => ?_, sound.stays, sound.valid,
    sound.indexed⟩
  · rcases entries other found here with ⟨rfl, rfl⟩ | ⟨_, old⟩
    · exact ⟨proper, same, isFile⟩
    · exact (sound.proper other found old).imp id (And.imp id (grows.isFile _))
  · rcases entries first a here with ⟨rfl, rfl⟩ | ⟨_, old⟩ <;>
      rcases entries second b here' with ⟨rfl, rfl⟩ | ⟨_, old'⟩
    · rfl
    · exact absurd equal.symm (fresh second b old')
    · exact absurd equal (fresh first a old)
    · exact sound.apart first second a b old old' equal
  · rw [grows.contents]
    exact sound.untouched path fun other found here => unused other found (kept other found here)
  · obtain ⟨holder, housed⟩ := sound.housed page resident present
    exact ⟨holder, kept _ _ housed.table, housed.id, housed.schema, housed.layout, housed.sound,
      (HeapFile.covers_congr (grows.contents holder.path)).mpr housed.covers⟩

theorem Sound.grows (sound : pool.Sound start) {disk : Disk} (grows : pool.disk.Grows disk)
    (nextTable : UInt32) : ({ pool with disk, nextTable } : Pool).Sound start where
  small := sound.small
  proper other file found := (sound.proper other file found).imp id (And.imp id (grows.isFile _))
  apart := sound.apart
  untouched path free := (grows.contents path).trans (sound.untouched path free)
  named := sound.named
  housed page resident present := (sound.housed page resident present).imp fun _ housed =>
    housed.congr rfl (HeapFile.covers_congr (grows.contents _)).mpr
  stays := sound.stays
  valid := sound.valid
  indexed := sound.indexed

/-- The ways to register a table. It fails, and may leave an empty file behind; or the table gets an id
that is not taken and a file that no other table has. -/
inductive Registers (pool : Pool) : Pool → Prop
  | failed (disk : Disk) (grows : pool.disk.Grows disk) (nextTable : UInt32) :
      Registers pool { pool with disk, nextTable }
  | added (disk : Disk) (grows : pool.disk.Grows disk) (nextTable : UInt32) (table : TableId)
      (free : pool.tables[table]? = none) (file : HeapFile) (proper : file.Proper)
      (same : file.table = table) (isFile : disk.IsFile file.path)
      (fresh : ∀ (other : TableId) (file' : HeapFile), pool.tables[other]? = some file' →
        file'.path ≠ file.path) :
      Registers pool { pool with disk, tables := pool.tables.insert table file, nextTable }

theorem Sound.registers_create (sound : pool.Sound start)
    (free : pool.tables[(⟨pool.nextTable⟩ : TableId)]? = none) (name : String) (schema : Schema) :
    Registers pool (pool.createTable name schema).1 := by
  unfold createTable
  cases made : HeapFile.create pool.disk name ⟨pool.nextTable⟩ schema pool.config.pageSize with
  | mk disk result =>
    obtain ⟨grows, new⟩ := HeapFile.of_create sound.small made
    cases result with
    | error failure => exact .failed disk grows _
    | ok file =>
      obtain ⟨proper, same, isFile, fresh⟩ := new file rfl
      refine .added disk grows _ _ free file proper same isFile fun other file' found equal => ?_
      exact fresh (equal ▸ (sound.proper other file' found).2.2)

theorem Sound.registers_open (sound : pool.Sound start)
    (free : pool.tables[(⟨pool.nextTable⟩ : TableId)]? = none) (name : String) (schema : Schema)
    (fresh : ∀ file, HeapFile.attach pool.disk name ⟨pool.nextTable⟩ schema
      pool.config.pageSize = .ok file → ∀ entry ∈ pool.tables.toList, entry.2.path ≠ file.path) :
    Registers pool (pool.openTable name schema).1 := by
  unfold openTable
  cases made : HeapFile.attach pool.disk name ⟨pool.nextTable⟩ schema pool.config.pageSize with
  | error failure => exact .failed pool.disk (.refl _) _
  | ok file =>
    obtain ⟨proper, same, isFile⟩ := HeapFile.of_attach sound.small made
    refine .added pool.disk (.refl _) _ _ free file proper same isFile fun other file' found => ?_
    exact fresh file made (other, file')
      (Std.ExtTreeMap.mem_toList_iff_getElem?_eq_some.mpr found)

theorem Registers.sound (registers : Registers pool later) (sound : pool.Sound start) :
    later.Sound start := by
  cases registers with
  | failed disk grows nextTable => exact sound.grows grows nextTable
  | added disk grows nextTable table free file proper same isFile fresh =>
    exact sound.register grows free proper same isFile fresh nextTable

end PagedTables.Pool
