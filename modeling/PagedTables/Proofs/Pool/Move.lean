import PagedTables.Proofs.Pool.Balance

/-! The moves that one transaction can make on a pool. Each keeps the pool sound and every page
balanced, and leaves alone what the others rely on: their locks, the pages they write, and what they
see of the pages they read. -/

namespace PagedTables.Pool

/-- What a move of one transaction comes to, for the pool and for the others. -/
structure Move (start : Disk) (owner : TransactionId) (ledger ledger' : Ledger)
    (pool later : Pool) : Prop where
  sound : later.Sound start
  balanced : ∀ page, later.Balanced start ledger' page
  tables : ∀ (table : TableId) (file : HeapFile), pool.tables[table]? = some file →
    later.tables[table]? = some file
  holds : ∀ other page mode, other ≠ owner → pool.locks.table.Holds other page mode →
    later.locks.table.Holds other page mode
  committed : ∀ other page, other ≠ owner → pool.locks.table.Holds other page .shared →
    ledger'.committed page = ledger.committed page
  pending : ∀ other page, other ≠ owner →
    ledger'.pending other page = ledger.pending other page
  frames : ∀ other page resident, other ≠ owner → pool.locks.table.Holds other page .exclusive →
    pool.cache.frames[page]? = some resident → resident.frame.isEvictable = false →
      later.cache.frames[page]? = some resident
  departed : ∀ other page gone, other ≠ owner → pool.locks.table.Holds other page .shared →
    gone ∈ later.cache.departed → gone.frame.id = page →
      (∃ before ∈ pool.cache.departed, gone.rested = before.rested) ∨
        pool.heap? page = some gone.frame.page

variable {start : Disk} {ledger ledger' : Ledger} {pool later : Pool} {page : PageId}
  {owner : TransactionId} {file : HeapFile} {resident : Resident}

section Still

variable (sound : pool.Sound start) (balanced : ∀ page, pool.Balanced start ledger page)
include sound balanced

theorem move_serve (h : Serves page pool later)
    (mine : pool.locks.table.Holds owner page .shared) :
    Move start owner ledger ledger pool later where
  sound := sound.serves h
  balanced other := (balanced other).serves sound h
  tables _ _ found := h.tables.symm ▸ found
  holds _ _ _ _ holds := h.locks.symm ▸ holds
  committed _ _ _ _ := rfl
  pending _ _ _ := rfl
  -- A page that another one has exclusively is not the one served; only an idle page is evicted.
  frames other place resident apart holds present stays := by
    have elsewhere : place ≠ page := by
      rintro rfl
      exact apart (holds.alone sound.valid mine).symm
    rcases h.elsewhere place elsewhere with same | ⟨_, victim, found, may⟩
    · exact same.trans present
    · rw [present, Option.some.injEq] at found
      rw [← found, stays] at may
      cases may
  departed _ _ gone _ _ member _ := .inl (h.departed gone member)

theorem move_relock {locks : LockManager} (further : pool.locks.table.Extends locks.table)
    (stats : Statistics) : Move start owner ledger ledger pool { pool with locks, stats } where
  sound := sound.relocked (further.valid sound.valid) (further.indexed sound.indexed) stats
  balanced other := (balanced other).relocked further stats
  tables _ _ := id
  holds _ _ _ _ := further.holds
  committed _ _ _ _ := rfl
  pending _ _ _ := rfl
  frames _ _ _ _ _ present _ := present
  departed _ _ gone _ _ member _ := .inl ⟨gone, member, rfl⟩

theorem move_append {disk : Disk} {table : TableId}
    (registered : pool.tables[table]? = some file) (h : file.Appends pool.disk disk) :
    Move start owner ledger ledger pool { pool with disk } where
  sound := sound.rewritten registered h.elsewhere h.isFile fun _ => h.covers
  balanced place := (balanced place).congr rfl
    (fun _ found => sound.stored_eq registered h.elsewhere found
      (h.stored (sound.proper _ _ registered).1)) rfl
    (fun _ => id) rfl (fun _ => rfl) fun _ => rfl
  tables _ _ := id
  holds _ _ _ _ := id
  committed _ _ _ _ := rfl
  pending _ _ _ := rfl
  frames _ _ _ _ _ present _ := present
  departed _ _ gone _ _ member _ := .inl ⟨gone, member, rfl⟩

theorem move_grow {disk : Disk} (grows : pool.disk.Grows disk) (nextTable : UInt32) :
    Move start owner ledger ledger pool { pool with disk, nextTable } where
  sound := sound.grows grows nextTable
  balanced place := (balanced place).congr rfl
    (fun found _ => HeapFile.stored_congr (HeapFile.readPage_congr (grows.contents found.path)))
    rfl (fun _ => id) rfl (fun _ => rfl) fun _ => rfl
  tables _ _ := id
  holds _ _ _ _ := id
  committed _ _ _ _ := rfl
  pending _ _ _ := rfl
  frames _ _ _ _ _ present _ := present
  departed _ _ gone _ _ member _ := .inl ⟨gone, member, rfl⟩

theorem move_register {disk : Disk} (grows : pool.disk.Grows disk) {table : TableId}
    (free : pool.tables[table]? = none) (proper : file.Proper) (same : file.table = table)
    (isFile : disk.IsFile file.path)
    (fresh : ∀ (other : TableId) (file' : HeapFile), pool.tables[other]? = some file' →
      file'.path ≠ file.path) (nextTable : UInt32) :
    Move start owner ledger ledger pool
      { pool with disk, tables := pool.tables.insert table file, nextTable } where
  sound := sound.register grows free proper same isFile fresh nextTable
  balanced place := (balanced place).register sound grows free fresh nextTable
  tables other found here := by
    have apart : ¬compare table other = .eq := by
      intro equal
      rw [← Std.LawfulEqOrd.compare_eq_iff_eq.mp equal, free] at here
      cases here
    rw [Std.ExtTreeMap.getElem?_insert, if_neg apart, here]
  holds _ _ _ _ := id
  committed _ _ _ _ := rfl
  pending _ _ _ := rfl
  frames _ _ _ _ _ present _ := present
  departed _ _ gone _ _ member _ := .inl ⟨gone, member, rfl⟩

end Still

structure Ledger.Differs (owner : TransactionId) (page : PageId) (ledger ledger' : Ledger) :
    Prop where
  committed : ledger'.committed = ledger.committed
  pending : ∀ other place, other ≠ owner ∨ place ≠ page →
    ledger'.pending other place = ledger.pending other place
  written : ∀ other place, other ≠ owner ∨ place ≠ page →
    ledger'.written other place = ledger.written other place

theorem Ledger.Differs.eq_self (differs : Ledger.Differs owner page ledger ledger')
    (pending : ledger'.pending owner page = ledger.pending owner page)
    (written : ledger'.written owner page = ledger.written owner page) : ledger' = ledger := by
  refine Ledger.ext differs.committed (funext₂ fun other place => ?_) (funext₂ fun other place => ?_)
  · by_cases here : other = owner ∧ place = page
    · rw [here.1, here.2, pending]
    · exact differs.pending other place (not_and_or.mp here)
  · by_cases here : other = owner ∧ place = page
    · rw [here.1, here.2, written]
    · exact differs.written other place (not_and_or.mp here)

section Change

variable (sound : pool.Sound start) (balanced : ∀ page, pool.Balanced start ledger page)
  (differs : Ledger.Differs owner page ledger ledger')
include sound balanced differs

theorem move_replace {cache : Cache} {frame : Frame} {stats : Statistics} {disk : Disk}
    (mine : pool.locks.table.Holds owner page .exclusive)
    (h : Cache.Replaces page ⟨resident.stay, frame⟩ pool.cache cache)
    (kept : ({ pool with cache, stats, disk } : Pool).Sound start)
    (here : ({ pool with cache, stats, disk } : Pool).Balanced start ledger' page)
    (stored : ∀ place file, place ≠ page → pool.tables[place.table]? = some file →
      file.stored disk place = file.stored pool.disk place) :
    Move start owner ledger ledger' pool { pool with cache, stats, disk } where
  sound := kept
  balanced place := by
    by_cases same : place = page
    · exact same ▸ here
    · refine (balanced place).congr rfl (stored place · same) ?_ (fun _ => id)
        (by rw [differs.committed]) (fun _ => differs.pending _ _ (.inr same))
        fun _ => differs.written _ _ (.inr same)
      simp only [heap?, h.elsewhere same]
  tables _ _ := id
  holds _ _ _ _ := id
  committed _ _ _ _ := by rw [differs.committed]
  pending _ _ apart := differs.pending _ _ (.inl apart)
  frames other place resident apart holds present _ := by
    have elsewhere : place ≠ page := by
      rintro rfl
      exact apart (mine.alone sound.valid holds)
    exact (h.elsewhere elsewhere).trans present
  departed _ _ gone _ _ member _ := .inl ⟨gone, h.departed ▸ member, rfl⟩

theorem move_edit {cache : Cache} {frame : Frame} (edits : List Edit)
    (present : pool.cache.frames[page]? = some resident)
    (mine : pool.locks.table.Holds owner page .exclusive)
    (unwritten : ledger.written owner page = [])
    (h : Cache.Replaces page ⟨resident.stay, frame⟩ pool.cache cache)
    (id : frame.id = resident.frame.id) (housed : pool.Houses page frame.page file)
    (mark : frame.page.dirtiedBy = some owner)
    (slots : frame.page.slots = Edit.replay page edits resident.frame.page.slots)
    (made : ledger'.pending owner page = ledger.pending owner page ++ edits)
    (some : ledger'.pending owner page ≠ [])
    (written : ledger'.written owner page = ledger.written owner page) :
    Move start owner ledger ledger' pool { pool with cache } := by
  have before : pool.heap? page = .some resident.frame.page := by simp [heap?, present]
  have now : ({ pool with cache } : Pool).heap? page = .some frame.page := by
    simp [heap?, h.cached]
  refine move_replace sound balanced differs mine h (sound.replaces present h id housed pool.stats)
    ?_ fun _ _ _ _ => rfl
  refine (balanced page).edit sound.valid rfl rfl rfl housed.table mine unwritten before now mark
    slots (by rw [differs.committed]) made some
    (fun other apart => differs.pending other page (.inl apart)) fun other => ?_
  by_cases same : other = owner
  · exact same ▸ written
  · exact differs.written other page (.inl same)

theorem move_flush {cache : Cache} {disk : Disk}
    (present : pool.cache.frames[page]? = some resident)
    (marked : resident.frame.page.dirtiedBy = some owner)
    (housed : pool.Houses page resident.frame.page file)
    (writes : file.Writes pool.disk resident.frame.page disk)
    (h : Cache.Replaces page
      ⟨resident.stay, { resident.frame with page := resident.frame.page.markDirty none }⟩
      pool.cache cache)
    (saved : ledger'.pending owner page = [])
    (kept : ledger'.written owner page = ledger.pending owner page) (stats : Statistics) :
    Move start owner ledger ledger' pool { pool with cache, stats, disk } := by
  have proper := sound.proper _ _ housed.table
  have before : pool.heap? page = some resident.frame.page := by simp [heap?, present]
  have mine := (balanced page).locked owner
    (.inl ((balanced page).marked resident.frame.page owner before marked))
  -- Pages that lie in the file before lie in it afterwards, since it does not get shorter.
  have covers : ∀ place, file.Covers pool.disk place → file.Covers disk place := by
    intro place inside
    unfold HeapFile.Covers
    rw [writes.length]
    exact inside
  have rewritten := sound.rewritten housed.table writes.elsewhere writes.isFile covers
  have now : ({ pool with cache, stats, disk } : Pool).heap? page =
      some (resident.frame.page.markDirty none) := by simp [heap?, h.cached]
  refine move_replace sound balanced differs mine h ?_ ?_ fun place holder apart found => ?_
  · have cleaned : ({ pool with disk } : Pool).Houses page
        (resident.frame.page.markDirty none) file :=
      ⟨housed.table, housed.id, housed.schema, housed.layout, housed.sound.markDirty none,
        covers page housed.covers⟩
    exact rewritten.replaces present h rfl cleaned stats
  · exact (balanced page).flush sound.valid rfl rfl housed.table before marked
      (housed.id ▸ writes.stored) now rfl rfl (by rw [differs.committed]) saved kept
      (fun other apart => differs.pending other page (.inl apart))
      fun other apart => differs.written other page (.inl apart)
  · refine sound.stored_eq housed.table writes.elsewhere found fun same => ?_
    exact writes.others same (housed.id.symm ▸ apart)

theorem move_discard {cache : Cache} (mine : pool.locks.table.Holds owner page .shared)
    (h : pool.cache.discard page = some cache) (stats : Statistics)
    (dropped : ledger'.pending owner page = [])
    (written : ledger'.written owner page = ledger.written owner page) :
    Move start owner ledger ledger' pool { pool with cache, stats } := by
  obtain ⟨resident, present, frames, departed, _⟩ := Cache.of_discard h
  refine ⟨sound.discards h stats, fun place => ?_, fun _ _ => id, fun _ _ _ _ => id,
    fun _ _ _ _ => by rw [differs.committed], fun _ _ apart => differs.pending _ _ (.inl apart),
    fun other place found apart holds here _ => ?_,
    fun other place gone apart holds member named => ?_⟩
  · by_cases same : place = page
    · subst same
      refine (balanced place).discard sound.valid rfl rfl rfl mine ?_ (by rw [differs.committed])
        dropped (fun other apart => differs.pending other place (.inl apart)) fun other => ?_
      · simp [heap?, frames]
      · by_cases same : other = owner
        · exact same ▸ written
        · exact differs.written other place (.inl same)
    · refine (balanced place).congr rfl (fun _ _ => rfl) ?_ (fun _ => id)
        (by rw [differs.committed]) (fun _ => differs.pending _ _ (.inr same))
        fun _ => differs.written _ _ (.inr same)
      simp [heap?, frames, same]
  · have elsewhere : place ≠ page := by
      rintro rfl
      exact apart (holds.alone sound.valid mine).symm
    exact (frames place).trans ((if_neg elsewhere).trans here)
  -- Readers that still use the page keep it aside, as it was in the cache.
  · rcases departed gone member with old | rfl
    · exact .inl ⟨gone, old, rfl⟩
    · obtain rfl : page = place := (sound.named page gone present).symm.trans named
      exact .inr (by simp [heap?, present])

end Change

theorem move_release (sound : pool.Sound start)
    (balanced : ∀ page, pool.Balanced start ledger page)
    (saved : ∀ page, ledger.pending owner page = [])
    (committed : ∀ page,
      ledger'.committed page = ledger.committed page ++ ledger.written owner page)
    (mine : ∀ page, ledger'.pending owner page = [] ∧ ledger'.written owner page = [])
    (theirs : ∀ other page, other ≠ owner →
      ledger'.pending other page = ledger.pending other page ∧
        ledger'.written other page = ledger.written other page) :
    Move start owner ledger ledger' pool (pool.releaseAll owner) where
  sound := by
    have valid : (pool.locks.releaseAll owner).table.Valid := sound.valid.releaseAll owner
    have indexed : (pool.locks.releaseAll owner).table.Indexed := sound.indexed.releaseAll owner
    exact sound.relocked valid indexed pool.stats
  balanced page := (balanced page).release sound.valid (saved page) (committed page) (mine page)
    fun other apart => theirs other page apart
  tables _ _ := id
  holds _ _ _ apart holds := holds.releaseAll apart
  committed other page apart holds := by
    rw [committed, ((balanced page).others sound.valid holds (Ne.symm apart)).2, List.append_nil]
  pending other page apart := (theirs other page apart).1
  frames _ _ _ _ _ present _ := present
  departed _ _ gone _ _ member _ := .inl ⟨gone, member, rfl⟩

end PagedTables.Pool
