import PagedTables.Proofs.Pool.Sound

/-! A cached page is written to its file or dropped. -/

namespace PagedTables

theorem Frame.allowsFlush_saved {frame : Frame} (free : frame.allowsFlush = true) :
    ({ frame with page := frame.page.markDirty none } : Frame).allowsFlush = true := by
  obtain ⟨id, heap, pins, latch⟩ := frame
  cases latch with
  | shared readers => simp [allowsFlush, HeapPage.isDirty, HeapPage.markDirty]
  | exclusive => cases free

namespace Pool

variable {pool : Pool} {page : PageId}

inductive Flushes (pool : Pool) (page : PageId) : Pool × Except Failure Unit → Prop
  | absent (absent : pool.cache.frames[page]? = none) : Flushes pool page (pool, .ok ())
  | clean (resident : Resident) (present : pool.cache.frames[page]? = some resident)
      (clean : resident.frame.page.dirtiedBy = none) : Flushes pool page (pool, .ok ())
  | failed (failure : Failure) : Flushes pool page (pool, .error failure)
  | written (resident : Resident) (present : pool.cache.frames[page]? = some resident)
      (writer : TransactionId) (dirty : resident.frame.page.dirtiedBy = some writer)
      (file : HeapFile) (registered : pool.tables[resident.frame.page.id.table]? = some file)
      (disk : Disk) (writes : file.writePage pool.disk resident.frame.page = .ok disk)
      (cache : Cache)
      (replaces : Cache.Replaces page
        ⟨resident.stay, { resident.frame with page := resident.frame.page.markDirty none }⟩
        pool.cache cache)
      (stats : Statistics) : Flushes pool page ({ pool with disk, cache, stats }, .ok ())

theorem flushPage_flushes (pool : Pool) (page : PageId) :
    Flushes pool page (pool.flushPage page) := by
  unfold flushPage
  cases present : pool.cache.frames[page]? with
  | none => exact .absent present
  | some resident =>
    simp only [writePage]
    split
    · exact .failed _
    · cases mark : resident.frame.page.dirtiedBy with
      | none =>
        rw [if_neg (by simp [HeapPage.isDirty, mark])]
        exact .clean resident present mark
      | some writer =>
        rw [if_pos (by simp [HeapPage.isDirty, mark])]
        cases found : pool.file resident.frame.page.id.table with
        | error failure => exact .failed failure
        | ok file =>
          cases write : file.writePage pool.disk resident.frame.page with
          | error failure => simpa only [write] using .failed failure
          | ok disk =>
            simp only [write]
            exact .written resident present writer mark file (file_eq_ok.mp found) disk write _
              (Cache.replaces_update present _) _

theorem canFlush_of_cached {resident : Resident} (present : pool.cache.frames[page]? = some resident) :
    pool.canFlush page = resident.frame.allowsFlush := by
  rw [canFlush, present, Option.all_some]

theorem canFlush_flushPage (page : PageId) {other : PageId} (free : pool.canFlush other = true) :
    (pool.flushPage page).1.canFlush other = true := by
  have flushes := pool.flushPage_flushes page
  generalize pool.flushPage page = result at flushes ⊢
  cases flushes with
  | absent absent => exact free
  | clean resident present clean => exact free
  | failed failure => exact free
  | written resident present writer dirty file registered disk writes cache replaces stats =>
    rw [canFlush, replaces.frames]
    split
    · next same =>
      rw [same, canFlush_of_cached present] at free
      exact Frame.allowsFlush_saved free
    · exact free

def Unlatched (pool : Pool) : Prop := ∀ page, pool.canFlush page = true

theorem unlatched_iff : pool.Unlatched ↔
    ∀ entry ∈ pool.cache.frames.toList, entry.2.frame.allowsFlush = true := by
  constructor
  · rintro free ⟨page, resident⟩ member
    have present := Std.ExtTreeMap.mem_toList_iff_getElem?_eq_some.mp member
    exact (canFlush_of_cached present).symm.trans (free page)
  · intro all page
    cases present : pool.cache.frames[page]? with
    | none => rw [canFlush, present, Option.all_none]
    | some resident =>
      rw [canFlush_of_cached present]
      exact all (page, resident) (Std.ExtTreeMap.mem_toList_iff_getElem?_eq_some.mpr present)

instance (pool : Pool) : Decidable pool.Unlatched := decidable_of_iff' _ unlatched_iff

theorem Unlatched.flushPage (free : pool.Unlatched) (page : PageId) :
    (pool.flushPage page).1.Unlatched := fun other => canFlush_flushPage page (free other)

theorem Sound.flushes {start : Disk} (sound : pool.Sound start) {resident : Resident} {file : HeapFile}
    {cache : Cache} {disk : Disk} (present : pool.cache.frames[page]? = some resident)
    (registered : pool.tables[resident.frame.page.id.table]? = some file)
    (writes : file.writePage pool.disk resident.frame.page = .ok disk)
    (replaces : Cache.Replaces page
      ⟨resident.stay, { resident.frame with page := resident.frame.page.markDirty none }⟩
      pool.cache cache) (stats : Statistics) :
    ({ pool with cache, stats, disk } : Pool).Sound start ∧
      file.Writes pool.disk resident.frame.page disk ∧
      pool.Houses page resident.frame.page file := by
  obtain ⟨holder, housed⟩ := sound.housed page resident present
  rw [housed.id] at registered
  obtain rfl : holder = file := Option.some.inj (housed.table.symm.trans registered)
  have proper := (sound.proper _ _ registered).1
  have stored := proper.writes housed.sound housed.schema housed.layout
    (housed.id ▸ housed.covers) writes
  have covers : ∀ place, holder.Covers pool.disk place → holder.Covers disk place := by
    intro place inside
    unfold HeapFile.Covers
    rw [stored.length]
    exact inside
  have rewritten := sound.rewritten registered stored.elsewhere stored.isFile covers
  have cleaned : ({ pool with disk } : Pool).Houses page
      (resident.frame.page.markDirty none) holder :=
    ⟨housed.table, housed.id, housed.schema, housed.layout, housed.sound.markDirty none,
      covers page housed.covers⟩
  exact ⟨rewritten.replaces present replaces rfl cleaned stats, stored, housed⟩

theorem Sound.flushPage {start : Disk} (sound : pool.Sound start) (page : PageId) :
    (pool.flushPage page).1.Sound start := by
  have flushes := pool.flushPage_flushes page
  generalize pool.flushPage page = result at flushes ⊢
  cases flushes with
  | absent absent => exact sound
  | clean resident present clean => exact sound
  | failed failure => exact sound
  | written resident present writer dirty file registered disk writes cache replaces stats =>
    exact (sound.flushes present registered writes replaces stats).1

theorem flushEach_keeps (kept : Pool → Prop)
    (keeps : ∀ (pool : Pool) (page : PageId), kept pool → kept (pool.flushPage page).1)
    (pages : List PageId) {pool : Pool} (before : kept pool) : kept (pool.flushEach pages).1 := by
  induction pages generalizing pool with
  | nil => exact before
  | cons page pages ih =>
    have after := keeps pool page before
    unfold flushEach
    generalize pool.flushPage page = result at after ⊢
    obtain ⟨later, answer⟩ := result
    cases answer with
    | error failure => exact after
    | ok done => exact ih after

inductive Discards (pool : Pool) (page : PageId) : Pool → Prop
  | absent (absent : pool.cache.frames[page]? = none) : Discards pool page pool
  | dropped (cache : Cache) (drops : pool.cache.discard page = some cache) (stats : Statistics) :
      Discards pool page { pool with cache, stats }

theorem discardPage_discards (pool : Pool) (page : PageId) :
    Discards pool page (pool.discardPage page) := by
  unfold discardPage
  cases drops : pool.cache.discard page with
  | none => exact .absent (Cache.discard_eq_none drops)
  | some cache => exact .dropped cache drops _

theorem discardEach_keeps (kept : Pool → Prop)
    (keeps : ∀ (pool : Pool) (page : PageId), kept pool → kept (pool.discardPage page))
    (pages : List PageId) {pool : Pool} (before : kept pool) : kept (pool.discardEach pages) := by
  induction pages generalizing pool with
  | nil => exact before
  | cons page pages ih => exact ih (keeps pool page before)

theorem complete_keeps (kept : Pool → Prop)
    (flushes : ∀ (pool : Pool) (page : PageId), kept pool → kept (pool.flushPage page).1)
    (discards : ∀ (pool : Pool) (page : PageId), kept pool → kept (pool.discardPage page))
    (releases : ∀ (pool : Pool) (owner : TransactionId), kept pool → kept (pool.releaseAll owner))
    (owner : TransactionId) (commit : Bool) {pool : Pool} (before : kept pool) :
    kept (pool.complete owner commit).1 := by
  cases commit with
  | false =>
    exact releases _ owner (discardEach_keeps kept discards (pool.heldPages owner) before)
  | true =>
    have flushed := flushEach_keeps kept flushes (pool.heldPages owner) before
    simp only [Pool.complete, if_true, flushHeld]
    generalize pool.flushEach (pool.heldPages owner) = result at flushed ⊢
    obtain ⟨later, answer⟩ := result
    cases answer with
    | error failure => exact flushed
    | ok done => exact releases later owner flushed

theorem Sound.discardPage {start : Disk} (sound : pool.Sound start) (page : PageId) :
    (pool.discardPage page).Sound start := by
  have discards := pool.discardPage_discards page
  generalize pool.discardPage page = result at discards ⊢
  cases discards with
  | absent absent => exact sound
  | dropped cache drops stats => exact sound.discards drops stats

theorem flushPage_locks (pool : Pool) (page : PageId) :
    (pool.flushPage page).1.locks = pool.locks := by
  have flushes := pool.flushPage_flushes page
  generalize pool.flushPage page = result at flushes ⊢
  cases flushes <;> rfl

theorem discardPage_locks (pool : Pool) (page : PageId) :
    (pool.discardPage page).locks = pool.locks := by
  have discards := pool.discardPage_discards page
  generalize pool.discardPage page = result at discards ⊢
  cases discards <;> rfl

end Pool
end PagedTables
