import PagedTables.Proofs.Lock.Release
import PagedTables.Proofs.Pool.Alike
import PagedTables.Proofs.Pool.Deed

/-! What the end of a transaction does to a pool. The pages that it has locked are saved or dropped one
after another; each time the other pages, and all bytes but those of that page, stay as they are. -/

namespace PagedTables

def Resident.saved (resident : Resident) : Resident :=
  resident.changed fun heap => heap.markDirty none

theorem Resident.saved_of_clean {resident : Resident} (clean : resident.frame.page.dirtiedBy = none) :
    resident.saved = resident := by
  obtain ⟨stay, id, ⟨name, schema, layout, slots, mark⟩, pins, latch⟩ := resident
  obtain rfl : mark = none := clean
  rfl

namespace Pool

variable {start : Disk} {pool later last : Pool} {page other : PageId} {pages rest : List PageId}
  {resident : Resident} {owner : TransactionId}

def Lies (pool : Pool) (page : PageId) (path : String) (offset : Nat) : Prop :=
  ∃ file, pool.tables[page.table]? = some file ∧ file.path = path ∧
    page.number.toNat * file.pageSize ≤ offset ∧
    offset < page.number.toNat * file.pageSize + file.pageSize

def Writable (pool : Pool) : Prop :=
  ∀ entry ∈ pool.cache.frames.toList, entry.2.frame.page.isDirty = true →
    (pool.written entry.2.frame.page).isOk = true

instance (pool : Pool) : Decidable pool.Writable :=
  inferInstanceAs (Decidable (∀ entry ∈ pool.cache.frames.toList, _ → _))

/-- The changes of some pages were written to the files, in their places. -/
structure Saves (pages : List PageId) (pool later : Pool) : Prop where
  tables : later.tables = pool.tables
  locks : later.locks = pool.locks
  frames : ∀ page, later.cache.frames[page]? =
    if page ∈ pages then pool.cache.frames[page]?.map Resident.saved else pool.cache.frames[page]?
  reads : ∀ page, later.readPage page =
    if page ∈ pages then (pool.shown page).map (HeapPage.markDirty · none) else pool.readPage page
  length : ∀ path, (later.disk.contents path).length = (pool.disk.contents path).length
  outside : ∀ path offset,
    (∀ page ∈ pages, pool.changed? page ≠ none → ¬pool.Lies page path offset) →
      (later.disk.contents path).byte offset = (pool.disk.contents path).byte offset

theorem map_clean_readPage (pool : Pool) (page : PageId) :
    (pool.readPage page).map (HeapPage.markDirty · none) = pool.readPage page := by
  cases read : pool.readPage page with
  | error failure => rfl
  | ok heap =>
    have clean := (of_readPage read).2
    obtain ⟨id, schema, layout, slots, mark⟩ := heap
    obtain rfl : mark = none := clean
    rfl

theorem saves_nothing (clean : ∀ page ∈ pages, pool.changed? page = none) :
    pool.Saves pages pool where
  tables := rfl
  locks := rfl
  frames page := by
    split
    · next member =>
      cases present : pool.cache.frames[page]? with
      | none => rfl
      | some resident =>
        have none := clean page member
        rw [changed?_of_cached present, ite_eq_right_iff] at none
        rw [Option.map_some, Resident.saved_of_clean]
        simpa [HeapPage.isDirty] using none
    · rfl
  reads page := by
    split
    · next member => simp only [shown, clean page member, map_clean_readPage]
    · rfl
  length _ := rfl
  outside _ _ _ := rfl

theorem Saves.changed (saves : pool.Saves pages later) (page : PageId) :
    later.changed? page = if page ∈ pages then none else pool.changed? page := by
  rw [changed?, saves.frames]
  split
  · cases pool.cache.frames[page]? <;> rfl
  · rfl

theorem Saves.lies (saves : pool.Saves pages later) {path : String} {offset : Nat} :
    later.Lies page path offset ↔ pool.Lies page path offset := by
  unfold Lies
  rw [saves.tables]

theorem Saves.trans (saves : pool.Saves pages later) (saves' : later.Saves rest last) :
    pool.Saves (pages ++ rest) last where
  tables := saves'.tables.trans saves.tables
  locks := saves'.locks.trans saves.locks
  frames page := by
    rw [saves'.frames, saves.frames]
    by_cases first : page ∈ pages <;> by_cases second : page ∈ rest <;>
      simp only [List.mem_append, first, second, or_true, or_false, if_true, if_false]
    -- A page that is written twice is clean the second time.
    rw [Option.map_map]
    rfl
  reads page := by
    have shown : later.shown page = if page ∈ pages then
        (pool.shown page).map (HeapPage.markDirty · none) else pool.shown page := by
      rw [Pool.shown, saves.changed, saves.reads]
      by_cases member : page ∈ pages
      · simp only [if_pos member]
      · simp only [if_neg member, Pool.shown]
    rw [saves'.reads, shown, saves.reads]
    by_cases first : page ∈ pages <;> by_cases second : page ∈ rest <;>
      simp only [List.mem_append, first, second, or_true, or_false, if_true, if_false]
    cases pool.shown page <;> rfl
  length path := (saves'.length path).trans (saves.length path)
  outside path offset apart := by
    have last : ∀ page ∈ rest, later.changed? page ≠ none → ¬later.Lies page path offset := by
      intro page member some lies
      rw [saves.changed] at some
      refine apart page (List.mem_append_right _ member) (fun none => some ?_) (saves.lies.mp lies)
      rw [none, ite_self]
    exact (saves'.outside path offset last).trans (saves.outside path offset fun page member =>
      apart page (List.mem_append_left _ member))

theorem isOk_written {file : HeapFile} {heap : HeapPage} (housed : pool.Houses page heap file)
    (own : page.table = file.table) : (pool.written heap).isOk = (file.place page).isOk := by
  have found : pool.file heap.id.table = .ok file := file_eq_ok.mpr (housed.id.symm ▸ housed.table)
  have here : heap.id.table = file.table := housed.id.symm ▸ own
  simp only [written, found, bind, Except.bind]
  rw [HeapFile.isOk_writePage housed.sound here, housed.id]

theorem Saves.writable (saves : pool.Saves pages later) (sound : pool.Sound start)
    (sound' : later.Sound start) (writable : pool.Writable) : later.Writable := by
  rintro ⟨page, resident⟩ member dirty
  have present := Std.ExtTreeMap.mem_toList_iff_getElem?_eq_some.mp member
  have before : pool.cache.frames[page]? = some resident := by
    rw [saves.frames] at present
    split at present
    · obtain ⟨old, _, rfl⟩ := Option.map_eq_some_iff.mp present
      cases dirty
    · exact present
  have could := writable (page, resident)
    (Std.ExtTreeMap.mem_toList_iff_getElem?_eq_some.mpr before) dirty
  obtain ⟨file, housed⟩ := sound.housed page resident before
  obtain ⟨file', housed'⟩ := sound'.housed page resident present
  obtain rfl : file = file' :=
    Option.some.inj (housed.table.symm.trans (saves.tables ▸ housed'.table))
  have own := (sound.proper _ _ housed.table).2.1.symm
  rwa [isOk_written housed own, ← isOk_written housed' own] at could

theorem Sound.saves_written (sound : pool.Sound start) {file : HeapFile} {cache : Cache} {disk : Disk}
    (present : pool.cache.frames[page]? = some resident)
    (dirty : resident.frame.page.isDirty = true)
    (registered : pool.tables[resident.frame.page.id.table]? = some file)
    (writes : file.writePage pool.disk resident.frame.page = .ok disk)
    (replaces : Cache.Replaces page
      ⟨resident.stay, { resident.frame with page := resident.frame.page.markDirty none }⟩
      pool.cache cache) (stats : Statistics) :
    pool.Saves [page] { pool with cache, stats, disk } := by
  obtain ⟨_, stored, housed⟩ := sound.flushes present registered writes replaces stats
  have changed : pool.changed? page = some resident.frame.page :=
    changed?_eq_some.mpr ⟨resident, present, rfl, dirty⟩
  refine ⟨rfl, rfl, fun other => ?_, fun other => ?_, fun path => ?_, fun path offset apart => ?_⟩
  · simp only [List.mem_singleton, replaces.frames]
    split
    · next same => rw [same, present]; rfl
    · rfl
  · simp only [List.mem_singleton]
    split
    · next same =>
      subst same
      rw [shown, changed, Pool.readPage_eq { pool with cache, stats, disk } housed.table, ← housed.id]
      exact stored.read
    · next apart =>
      exact sound.readPage_eq housed.table stored.elsewhere fun table =>
        stored.kept other table (housed.id.symm ▸ apart)
  · by_cases here : path = file.path
    · exact here ▸ stored.length
    · exact congrArg Bytes.length (stored.elsewhere path here)
  · by_cases here : path = file.path
    · have clear := apart page (List.mem_singleton_self page) (by simp [changed])
      subst here
      refine HeapFile.writePage_agreeOutside housed.sound housed.layout writes offset ?_
      rw [housed.id]
      -- A byte of the window that was written would be one of the page that has changes.
      by_contra inside
      exact clear ⟨file, housed.table, rfl, by omega, by omega⟩
    · exact congrArg (Bytes.byte · offset) (stored.elsewhere path here)

theorem Saves.canFlush (saves : pool.Saves pages later) (free : pool.canFlush page = true) :
    later.canFlush page = true := by
  rw [Pool.canFlush, saves.frames]
  split
  · cases present : pool.cache.frames[page]? with
    | none => rfl
    | some resident =>
      rw [canFlush_of_cached present] at free
      exact Frame.allowsFlush_saved free
  · exact free

theorem Sound.saves_flushPage (sound : pool.Sound start) (writable : pool.Writable)
    (free : pool.canFlush page = true) :
    ∃ later, pool.flushPage page = (later, .ok ()) ∧ later.Sound start ∧ pool.Saves [page] later := by
  cases changed : pool.changed? page with
  | none =>
    refine ⟨pool, flushPage_clean free changed, sound, saves_nothing fun other member => ?_⟩
    rwa [List.mem_singleton.mp member]
  | some heap =>
    have answers := flushPage_changed free changed
    obtain ⟨resident, present, rfl, dirty⟩ := changed?_eq_some.mp changed
    have could := writable (page, resident)
      (Std.ExtTreeMap.mem_toList_iff_getElem?_eq_some.mpr present) dirty
    have flushes := pool.flushPage_flushes page
    generalize pool.flushPage page = result at flushes answers ⊢
    cases flushes with
    | absent absent => cases absent.symm.trans present
    | clean before found clean =>
      obtain rfl := Option.some.inj (found.symm.trans present)
      simp [HeapPage.isDirty, clean] at dirty
    | failed failure =>
      rcases answers with ⟨cause, refused, _⟩ | ⟨_, _, _, _, same, _⟩
      · rw [refused] at could
        cases could
      · cases congrArg Prod.snd same
    | written before found writer mark file registered disk writes cache replaces stats =>
      obtain rfl := Option.some.inj (found.symm.trans present)
      exact ⟨_, rfl, (sound.flushes found registered writes replaces stats).1,
        sound.saves_written found dirty registered writes replaces stats⟩

theorem Sound.saves_flushEach (sound : pool.Sound start) (writable : pool.Writable)
    (free : ∀ page ∈ pages, pool.canFlush page = true) :
    ∃ later, pool.flushEach pages = (later, .ok ()) ∧ later.Sound start ∧ pool.Saves pages later := by
  induction pages generalizing pool with
  | nil => exact ⟨pool, rfl, sound, saves_nothing fun page member => absurd member List.not_mem_nil⟩
  | cons page pages ih =>
    obtain ⟨here, free⟩ := List.forall_mem_cons.mp free
    obtain ⟨later, flushed, sound', saves⟩ := sound.saves_flushPage writable here
    obtain ⟨last, rest, sound'', saves'⟩ := ih sound' (saves.writable sound sound' writable)
      fun page member => saves.canFlush (free page member)
    refine ⟨last, ?_, sound'', saves.trans saves'⟩
    simp only [Pool.flushEach, flushed, rest]

structure Drops (pages : List PageId) (pool later : Pool) : Prop where
  disk : later.disk = pool.disk
  locks : later.locks = pool.locks
  frames : ∀ page, later.cache.frames[page]? =
    if page ∈ pages then none else pool.cache.frames[page]?

theorem drops_discardEach (pages : List PageId) (pool : Pool) :
    pool.Drops pages (pool.discardEach pages) := by
  induction pages generalizing pool with
  | nil => exact ⟨rfl, rfl, fun page => (if_neg List.not_mem_nil).symm⟩
  | cons page pages ih =>
    have rest := ih (pool.discardPage page)
    have first : (pool.discardPage page).disk = pool.disk ∧
        ∀ other, (pool.discardPage page).cache.frames[other]? =
          if other = page then none else pool.cache.frames[other]? := by
      have discards := pool.discardPage_discards page
      generalize pool.discardPage page = later at discards ⊢
      cases discards with
      | absent absent =>
        refine ⟨rfl, fun other => ?_⟩
        split
        · next same => rw [same, absent]
        · rfl
      | dropped cache drops stats =>
        obtain ⟨_, _, frames, _⟩ := Cache.of_discard drops
        exact ⟨rfl, frames⟩
    refine ⟨rest.disk.trans first.1, rest.locks.trans (pool.discardPage_locks page), fun other => ?_⟩
    rw [discardEach, List.foldl_cons]
    refine (rest.frames other).trans ?_
    rw [first.2]
    by_cases same : other = page <;> by_cases later : other ∈ pages <;>
      simp [same, later]

def Marks (pool : Pool) (owner : TransactionId) (page : PageId) : Prop :=
  ∃ resident, pool.cache.frames[page]? = some resident ∧
    resident.frame.page.dirtiedBy = some owner

/-- A transaction is over. Nothing is left of it but the changes that it has saved, and to all others
it is as if it had never been there. -/
structure Settles (owner : TransactionId) (commit : Bool) (pool later : Pool) : Prop where
  unlocked : ∀ page mode, ¬later.locks.table.Holds owner page mode
  listed : later.heldPages owner = []
  unwaiting : ∀ other, ¬later.locks.table.waits.Waits owner other ∧
    ¬later.locks.table.waits.Waits other owner
  unmarked : ∀ page, ¬later.Marks owner page
  saved : commit = true → ∀ (page : PageId) (resident : Resident),
    pool.cache.frames[page]? = some resident → resident.frame.page.dirtiedBy = some owner →
      later.cache.frames[page]? = some resident.saved ∧
        later.readPage page = .ok resident.saved.frame.page
  dropped : commit = false → later.disk = pool.disk ∧
    ∀ page mode, pool.locks.table.Holds owner page mode → later.cache.frames[page]? = none
  length : ∀ path, (later.disk.contents path).length = (pool.disk.contents path).length
  outside : ∀ path offset, (∀ page, pool.Marks owner page → ¬pool.Lies page path offset) →
    (later.disk.contents path).byte offset = (pool.disk.contents path).byte offset
  pages : ∀ page path offset, ¬pool.Marks owner page → pool.Lies page path offset →
    (later.disk.contents path).byte offset = (pool.disk.contents path).byte offset
  cached : ∀ page, (∀ mode, ¬pool.locks.table.Holds owner page mode) →
    later.cache.frames[page]? = pool.cache.frames[page]?
  others : ∀ other, other ≠ owner → later.heldPages other = pool.heldPages other ∧
    ∀ page mode, later.locks.table.Holds other page mode ↔ pool.locks.table.Holds other page mode

theorem Sound.lies_once (sound : pool.Sound start) {path : String} {offset : Nat}
    (here : pool.Lies page path offset) (there : pool.Lies other path offset) : page = other := by
  obtain ⟨file, registered, rfl, low, high⟩ := here
  obtain ⟨file', registered', same, low', high'⟩ := there
  have tables := sound.apart _ _ _ _ registered registered' same.symm
  obtain rfl : file = file' := Option.some.inj (registered.symm.trans (tables ▸ registered'))
  by_contra apart
  have windows := HeapFile.windows_apart tables.symm apart file.pageSize
  omega

theorem Owned.mem_of_marks (owned : pool.Owned) (marks : pool.Marks owner page) :
    page ∈ pool.heldPages owner := by
  obtain ⟨resident, present, dirty⟩ := marks
  exact (mem_heldPages_iff owned.indexed).mpr (owned.locked page resident owner present dirty).shared

theorem Owned.marks_of_mem (owned : pool.Owned) (member : page ∈ pool.heldPages owner)
    (changed : pool.changed? page ≠ none) : pool.Marks owner page := by
  obtain ⟨heap, changed⟩ := Option.ne_none_iff_exists'.mp changed
  obtain ⟨resident, present, rfl, dirty⟩ := changed?_eq_some.mp changed
  obtain ⟨writer, mark⟩ := Option.isSome_iff_exists.mp dirty
  have alone := (owned.locked page resident writer present mark).alone owned.valid
    ((mem_heldPages_iff owned.indexed).mp member)
  exact ⟨resident, present, alone ▸ mark⟩

theorem Owned.settles (owned : pool.Owned) (sound : pool.Sound start) {commit : Bool}
    (locks : later.locks = pool.locks)
    (unmarked : ∀ page ∈ pool.heldPages owner, later.changed? page = none)
    (saved : commit = true → ∀ page, pool.Marks owner page → ∀ resident,
      pool.cache.frames[page]? = some resident →
      later.cache.frames[page]? = some resident.saved ∧
        later.readPage page = .ok resident.saved.frame.page)
    (dropped : commit = false → later.disk = pool.disk ∧
      ∀ page ∈ pool.heldPages owner, later.cache.frames[page]? = none)
    (length : ∀ path, (later.disk.contents path).length = (pool.disk.contents path).length)
    (outside : ∀ path offset, (∀ page, pool.Marks owner page → ¬pool.Lies page path offset) →
      (later.disk.contents path).byte offset = (pool.disk.contents path).byte offset)
    (cached : ∀ page, page ∉ pool.heldPages owner →
      later.cache.frames[page]? = pool.cache.frames[page]?) :
    pool.Settles owner commit (later.releaseAll owner) := by
  have released : (later.releaseAll owner).locks = pool.locks.releaseAll owner :=
    congrArg (LockManager.releaseAll · owner) locks
  have table : (later.releaseAll owner).locks.table = pool.locks.table.releaseAll owner := by
    rw [released]
    rfl
  have member : ∀ {page mode}, pool.locks.table.Holds owner page mode → page ∈ pool.heldPages owner :=
    fun holds => (mem_heldPages_iff owned.indexed).mpr holds.shared
  refine
    { unlocked := fun page mode => ?_
      listed := ?_
      unwaiting := fun other => ?_
      unmarked := fun page marks => ?_
      saved := fun committed page resident present dirty =>
        saved committed page ⟨resident, present, dirty⟩ resident present
      dropped := fun aborted => ?_
      length
      outside
      pages := fun page path offset clean lies => ?_
      cached := fun page free => ?_
      others := fun other apart => ?_ }
  · rw [table]
    exact LockTable.not_holds_releaseAll owned.indexed owner page mode
  · rw [heldPages, table, LockTable.heldBy_releaseAll, if_pos rfl]
    rfl
  · rw [table]
    have waits := fun waiter holder => @WaitGraph.waits_remove pool.locks.table.waits owner waiter holder
    exact ⟨fun edge => ((waits _ _).mp edge).1 rfl, fun edge => ((waits _ _).mp edge).2.1 rfl⟩
  · -- A page with the mark of the transaction would be one that it has locked, and those are
    -- settled.
    obtain ⟨resident, present, dirty⟩ := marks
    have present : later.cache.frames[page]? = some resident := present
    by_cases held : page ∈ pool.heldPages owner
    · have none := unmarked page held
      rw [changed?_of_cached present, if_pos (by simp [HeapPage.isDirty, dirty])] at none
      cases none
    · rw [cached page held] at present
      exact held (owned.mem_of_marks ⟨resident, present, dirty⟩)
  · obtain ⟨disk, gone⟩ := dropped aborted
    exact ⟨disk, fun page mode holds => gone page (member holds)⟩
  · refine outside path offset fun other marks lies' => clean ?_
    exact sound.lies_once lies lies' ▸ marks
  · exact cached page fun held => free .shared ((mem_heldPages_iff owned.indexed).mp held)
  · refine ⟨?_, fun page mode => ?_⟩
    · rw [heldPages, heldPages, table, LockTable.heldBy_releaseAll, if_neg apart]
    · rw [table]
      exact LockTable.holds_releaseAll_iff apart

theorem complete_releaseAll (pool : Pool) (owner : TransactionId) (commit : Bool) :
    (pool.releaseAll owner).complete owner commit = (pool.releaseAll owner, .ok ()) := by
  have none : (pool.releaseAll owner).heldPages owner = [] := by
    show ((pool.locks.table.releaseAll owner).heldBy owner).toList = []
    rw [LockTable.heldBy_releaseAll, if_pos rfl]
    rfl
  have again : (pool.releaseAll owner).releaseAll owner = pool.releaseAll owner := by
    simp only [releaseAll, LockManager.releaseAll_releaseAll]
  cases commit with
  | true => simp only [complete, if_true, flushHeld, none, flushEach, again]
  | false =>
    simp only [complete, Bool.false_eq_true, if_false, none, discardEach, List.foldl_nil, again]

theorem Owned.settles_complete (owned : pool.Owned) (sound : pool.Sound start)
    (owner : TransactionId) (commit : Bool) (writable : commit = true → pool.Writable)
    (free : ∀ page ∈ pool.heldPages owner, pool.canFlush page = true) :
    ∃ later, pool.complete owner commit = (later, .ok ()) ∧ pool.Settles owner commit later ∧
      ∀ again, later.complete owner again = (later, .ok ()) := by
  -- A commit saves the pages that the transaction has locked, an abort drops them.
  cases commit with
  | true =>
    obtain ⟨later, flushed, _, saves⟩ :=
      sound.saves_flushEach (writable rfl) free
    refine ⟨later.releaseAll owner, ?_, owned.settles sound saves.locks (fun page held => ?_)
      (fun _ page marks resident present => ?_) (fun aborted => by cases aborted) saves.length
      (fun path offset apart => ?_) (fun page free => ?_), later.complete_releaseAll owner⟩
    · simp only [complete, if_true, flushHeld, flushed]
    · rw [saves.changed, if_pos held]
    · have held := owned.mem_of_marks marks
      obtain ⟨before, found, dirty⟩ := marks
      obtain rfl := Option.some.inj (found.symm.trans present)
      have changed : pool.changed? page = some before.frame.page :=
        changed?_eq_some.mpr ⟨before, present, rfl, by simp [HeapPage.isDirty, dirty]⟩
      refine ⟨by rw [saves.frames, if_pos held, present, Option.map_some], ?_⟩
      rw [saves.reads, if_pos held, shown, changed]
      rfl
    · exact saves.outside path offset fun page held changed =>
        apart page (owned.marks_of_mem held changed)
    · rw [saves.frames, if_neg free]
  | false =>
    have drops := pool.drops_discardEach (pool.heldPages owner)
    refine ⟨_, rfl, owned.settles sound drops.locks (fun page held => ?_)
      (fun committed => by cases committed) (fun _ => ⟨drops.disk, fun page held => ?_⟩)
      (fun path => by rw [drops.disk]) (fun path offset _ => by rw [drops.disk])
      (fun page free => ?_), complete_releaseAll _ owner⟩
    · exact changed?_of_absent ((drops.frames page).trans (if_pos held))
    · rw [drops.frames, if_pos held]
    · rw [drops.frames, if_neg free]

end Pool
end PagedTables
