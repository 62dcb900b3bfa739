import PagedTables.Proofs.Pool.Completion
import PagedTables.Proofs.Storage.Image
import PagedTables.Proofs.Storage.LoadOrder

/-! All changes in the cache are written at once, in whichever order the cached pages come. Each page
has a place of its own in its file, so the order does not matter to what the files have then. -/

namespace PagedTables

namespace Cache

def cleaned (cache : Cache) : Cache :=
  { cache with frames := cache.frames.map fun _ resident => resident.saved }

variable {cache : Cache} {page other : PageId} {found found' : Resident}

theorem getElem?_cleaned (cache : Cache) (page : PageId) :
    cache.cleaned.frames[page]? = cache.frames[page]?.map Resident.saved :=
  Std.ExtTreeMap.getElem?_map

theorem update_of_cached (present : cache.frames[page]? = some found) (frame : Frame) :
    cache.update page ⟨found.stay, frame⟩ =
      { cache with frames := cache.frames.insert page ⟨found.stay, frame⟩ } :=
  if_pos (by simp [present])

theorem update_comm (present : cache.frames[page]? = some found)
    (present' : cache.frames[other]? = some found') (apart : page ≠ other) (frame frame' : Frame) :
    (cache.update page ⟨found.stay, frame⟩).update other ⟨found'.stay, frame'⟩ =
      (cache.update other ⟨found'.stay, frame'⟩).update page ⟨found.stay, frame⟩ := by
  have still := (replaces_update present frame).elsewhere (Ne.symm apart)
  have still' := (replaces_update present' frame').elsewhere apart
  rw [update_of_cached (still.trans present'), update_of_cached (still'.trans present),
    update_of_cached present, update_of_cached present']
  simp only [insert_comm cache.frames apart]

end Cache

namespace Pool

variable {start : Disk} {pool later last : Pool} {page other : PageId} {pages rest : List PageId}
  {heap : HeapPage}

def changedPages (pool : Pool) : List PageId :=
  pool.cache.frames.keys.filter fun page => (pool.changed? page).isSome

/-- Every change was written to its file, in its place, and nothing else was done. -/
structure Cleans (pool later : Pool) : Prop where
  rest : later =
    { pool with
      disk := later.disk
      cache := pool.cache.cleaned
      stats := pool.stats.add .written (UInt64.ofNat pool.changedPages.length) }
  saved : ∀ page heap, pool.changed? page = some heap →
    later.readPage page = .ok (heap.markDirty none)
  kept : ∀ page, pool.changed? page = none → later.readPage page = pool.readPage page
  length : ∀ path, (later.disk.contents path).length = (pool.disk.contents path).length
  outside : ∀ path offset, (∀ page, pool.changed? page ≠ none → ¬pool.Lies page path offset) →
    (later.disk.contents path).byte offset = (pool.disk.contents path).byte offset
  pages : ∀ page path offset, pool.changed? page = none → pool.Lies page path offset →
    (later.disk.contents path).byte offset = (pool.disk.contents path).byte offset

theorem Sound.exists_flush (sound : pool.Sound start) (writable : pool.Writable)
    (free : pool.canFlush page = true) (changed : pool.changed? page = some heap) :
    ∃ file resident image, pool.tables[page.table]? = some file ∧
      pool.cache.frames[page]? = some resident ∧ image.length = file.pageSize ∧
      ∀ later : Pool, later.tables = pool.tables → later.cache.frames[page]? = some resident →
        later.flushPage page =
          ({ later with
              disk := later.disk.rewrite file.path (page.number.toNat * file.pageSize) image
              cache := later.cache.update page ⟨resident.stay, resident.saved.frame⟩
              stats := later.stats.count .written }, .ok ()) := by
  obtain ⟨resident, present, rfl, dirty⟩ := changed?_eq_some.mp changed
  rw [canFlush_of_cached present] at free
  obtain ⟨file, housed⟩ := sound.housed page resident present
  have could := writable (page, resident)
    (Std.ExtTreeMap.mem_toList_iff_getElem?_eq_some.mpr present) dirty
  have found : pool.file resident.frame.page.id.table = .ok file :=
    file_eq_ok.mpr (housed.id.symm ▸ housed.table)
  cases writes : file.writePage pool.disk resident.frame.page with
  | error failure => simp [written, found, writes, bind, Except.bind, Except.isOk, Except.toBool] at could
  | ok disk =>
    obtain ⟨image, size, same⟩ := HeapFile.exists_image housed.sound housed.layout writes
    refine ⟨file, resident, image, housed.table, present, size, fun later tables here => ?_⟩
    have found : later.file resident.frame.page.id.table = .ok file :=
      file_eq_ok.mpr (tables.symm ▸ housed.id.symm ▸ housed.table)
    simp only [Pool.flushPage, here, free, Bool.not_true, Bool.false_eq_true, if_false, dirty, if_true,
      found, writePage, same]
    rw [housed.id]
    rfl

theorem Sound.flushPage_comm (sound : pool.Sound start) (writable : pool.Writable)
    (free : pool.Unlatched) (page other : PageId) :
    ((pool.flushPage page).1.flushPage other).1 = ((pool.flushPage other).1.flushPage page).1 := by
  by_cases same : page = other
  · rw [same]
  · have still : (pool.flushPage page).1.changed? other = pool.changed? other :=
      flushPage_changed?_of_ne (Ne.symm same)
    have still' : (pool.flushPage other).1.changed? page = pool.changed? page :=
      flushPage_changed?_of_ne same
    cases changed : pool.changed? page with
    | none => rw [flushPage_fst_of_clean changed, flushPage_fst_of_clean (still'.trans changed)]
    | some heap =>
      cases changed' : pool.changed? other with
      | none => rw [flushPage_fst_of_clean changed', flushPage_fst_of_clean (still.trans changed')]
      | some heap' =>
        obtain ⟨file, resident, image, table, present, size, flush⟩ :=
          sound.exists_flush writable (free page) changed
        obtain ⟨file', resident', image', table', present', size', flush'⟩ :=
          sound.exists_flush writable (free other) changed'
        have kept := (Cache.replaces_update present resident.saved.frame).elsewhere (Ne.symm same)
        have kept' := (Cache.replaces_update present' resident'.saved.frame).elsewhere same
        have second := fun disk stats =>
          flush' { pool with disk, cache := pool.cache.update page _, stats } rfl (kept.trans present')
        have second' := fun disk stats =>
          flush { pool with disk, cache := pool.cache.update other _, stats } rfl (kept'.trans present)
        rw [flush pool rfl present, flush' pool rfl present', second, second']
        -- Pages of two tables are in two files, those of one table in two places.
        have apart : file.path = file'.path →
            page.number.toNat * file.pageSize + image.length ≤ other.number.toNat * file'.pageSize ∨
            other.number.toNat * file'.pageSize + image'.length ≤
              page.number.toNat * file.pageSize := by
          intro paths
          have tables := sound.apart _ _ _ _ table table' paths
          obtain rfl : file = file' := Option.some.inj (table.symm.trans (tables ▸ table'))
          rw [size, size']
          exact (HeapFile.windows_apart tables (Ne.symm same) file.pageSize).symm
        simp only [Disk.rewrite_comm pool.disk apart, Cache.update_comm present present' same]

theorem Sound.flushEach_perm (sound : pool.Sound start) (writable : pool.Writable)
    (free : pool.Unlatched) (perm : pages.Perm rest) : pool.flushEach pages = pool.flushEach rest := by
  induction perm generalizing pool with
  | nil => rfl
  | cons page _ ih =>
    obtain ⟨later, flushed, sound', saves⟩ := sound.saves_flushPage writable (free page)
    simp only [flushEach, flushed]
    exact ih sound' (saves.writable sound sound' writable) fun other => saves.canFlush (free other)
  | swap page other rest =>
    have same := sound.flushPage_comm writable free page other
    obtain ⟨later, flushed, sound', saves⟩ := sound.saves_flushPage writable (free page)
    obtain ⟨later', flushed', sound'', saves'⟩ := sound.saves_flushPage writable (free other)
    obtain ⟨last, second, _⟩ := sound'.saves_flushPage (saves.writable sound sound' writable)
      (saves.canFlush (free other))
    obtain ⟨last', second', _⟩ := sound''.saves_flushPage (saves'.writable sound sound'' writable)
      (saves'.canFlush (free page))
    rw [flushed, flushed', second, second'] at same
    obtain rfl : last = last' := same
    simp only [flushEach, flushed, flushed', second, second']
  | trans _ _ ih ih' => exact (ih sound writable free).trans (ih' sound writable free)

theorem flushEach_clean (free : pool.Unlatched) (pages : List PageId)
    (clean : ∀ page, pool.changed? page = none) : pool.flushEach pages = (pool, .ok ()) := by
  induction pages with
  | nil => rfl
  | cons page pages ih => simpa only [flushEach, flushPage_clean (free page) (clean page)] using ih

structure Counts (count : Nat) (pool later : Pool) : Prop where
  config : later.config = pool.config
  nextTable : later.nextTable = pool.nextTable
  order : later.cache.order = pool.cache.order
  departed : later.cache.departed = pool.cache.departed
  nextStay : later.cache.nextStay = pool.cache.nextStay
  stats : later.stats = pool.stats.add .written (UInt64.ofNat count)

theorem Counts.trans {m n : Nat} (counts : Counts m pool later) (counts' : Counts n later last) :
    Counts (m + n) pool last where
  config := counts'.config.trans counts.config
  nextTable := counts'.nextTable.trans counts.nextTable
  order := counts'.order.trans counts.order
  departed := counts'.departed.trans counts.departed
  nextStay := counts'.nextStay.trans counts.nextStay
  stats := by
    rw [counts'.stats, counts.stats, UInt64.ofNat_add]
    simp only [Statistics.add, UInt64.add_assoc]

theorem counts_nothing (pool : Pool) : Counts 0 pool pool where
  config := rfl
  nextTable := rfl
  order := rfl
  departed := rfl
  nextStay := rfl
  stats := by simp [Statistics.add]

theorem Sound.counts_flushEach (sound : pool.Sound start) (writable : pool.Writable)
    (free : pool.Unlatched) (once : pages.Nodup) (changed : ∀ page ∈ pages, pool.changed? page ≠ none) :
    Counts pages.length pool (pool.flushEach pages).1 := by
  induction pages generalizing pool with
  | nil => exact counts_nothing pool
  | cons page pages ih =>
    obtain ⟨unlisted, once⟩ := List.nodup_cons.mp once
    obtain ⟨heap, here⟩ := Option.ne_none_iff_exists'.mp (changed page List.mem_cons_self)
    obtain ⟨file, resident, image, _, present, _, flush⟩ :=
      sound.exists_flush writable (free page) here
    obtain ⟨later, flushed, sound', saves⟩ := sound.saves_flushPage writable (free page)
    have first : Counts 1 pool later := by
      have same : later = _ := congrArg Prod.fst (flushed.symm.trans (flush pool rfl present))
      have replaces := Cache.replaces_update present resident.saved.frame
      rw [same]
      exact ⟨rfl, rfl, Cache.order_update, replaces.departed, replaces.nextStay, rfl⟩
    have free' : later.Unlatched := fun other => saves.canFlush (free other)
    have rest := ih sound' (saves.writable sound sound' writable) free' once fun other member => by
      have apart : other ∉ [page] := fun same => unlisted (List.mem_singleton.mp same ▸ member)
      rw [saves.changed, if_neg apart]
      exact changed other (List.mem_cons_of_mem _ member)
    simp only [flushEach, flushed, List.length_cons, Nat.add_comm _ 1]
    exact first.trans rest

theorem mem_changedPages : page ∈ pool.changedPages ↔ pool.changed? page ≠ none :=
  mem_keys_changed.trans Option.isSome_iff_ne_none

theorem Saves.cleaned (saves : pool.Saves pool.changedPages later) (page : PageId) :
    later.cache.frames[page]? = pool.cache.cleaned.frames[page]? := by
  rw [saves.frames, Cache.getElem?_cleaned]
  split
  · rfl
  · next unchanged =>
    cases present : pool.cache.frames[page]? with
    | none => rfl
    | some resident =>
      rw [mem_changedPages, not_not, changed?_of_cached present, ite_eq_right_iff] at unchanged
      rw [Option.map_some, Resident.saved_of_clean]
      simpa [HeapPage.isDirty] using unchanged

theorem Sound.cleans (sound : pool.Sound start) (saves : pool.Saves pool.changedPages later)
    (counts : Counts pool.changedPages.length pool later) : pool.Cleans later where
  rest := by
    obtain ⟨config, disk, tables, nextTable, locks, ⟨frames, order, departed, nextStay⟩, stats⟩ := later
    obtain ⟨rfl, rfl, rfl, rfl, rfl, rfl⟩ := counts
    obtain rfl := saves.tables
    obtain rfl := saves.locks
    obtain rfl := Std.ExtTreeMap.ext_getElem? saves.cleaned
    rfl
  saved page heap changed := by
    have listed : page ∈ pool.changedPages := mem_changedPages.mpr (by simp [changed])
    rw [saves.reads, if_pos listed, shown, changed]
    rfl
  kept page unchanged := by
    rw [saves.reads, if_neg fun listed => mem_changedPages.mp listed unchanged]
  length := saves.length
  outside path offset apart := saves.outside path offset fun page _ => apart page
  pages page path offset unchanged lies :=
    saves.outside path offset fun other _ changed lies' =>
      changed (sound.lies_once lies lies' ▸ unchanged)

theorem Cleans.unchanged (cleans : pool.Cleans later) (page : PageId) : later.changed? page = none := by
  have frames : later.cache.frames[page]? = pool.cache.frames[page]?.map Resident.saved := by
    rw [cleans.rest]
    exact pool.cache.getElem?_cleaned page
  rw [changed?, frames]
  cases pool.cache.frames[page]? <;> rfl

theorem Sound.cleans_flushEach (sound : pool.Sound start) (writable : pool.Writable)
    (free : pool.Unlatched) :
    ∃ later, pool.Cleans later ∧
      (∀ pages, pages.Perm pool.cache.frames.keys → pool.flushEach pages = (later, .ok ())) ∧
      ∀ pages, later.flushEach pages = (later, .ok ()) := by
  have all : ∀ page ∈ pool.changedPages, pool.canFlush page = true := fun page _ => free page
  obtain ⟨later, flushed, _, saves⟩ := sound.saves_flushEach writable all
  have once : pool.changedPages.Nodup := pool.cache.frames.nodup_keys.filter _
  have counts := sound.counts_flushEach writable free once fun page => mem_changedPages.mp
  rw [flushed] at counts
  have cleans := sound.cleans saves counts
  have free' : later.Unlatched := fun page => saves.canFlush (free page)
  refine ⟨later, cleans, fun pages perm => ?_,
    fun pages => flushEach_clean free' pages cleans.unchanged⟩
  rw [sound.flushEach_perm writable free perm, flushEach_filter _ pool.cache.frames.nodup_keys free]
  exact flushed

end Pool
end PagedTables
