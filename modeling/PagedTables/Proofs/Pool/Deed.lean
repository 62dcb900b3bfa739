import PagedTables.Proofs.Pool.Flush
import PagedTables.Proofs.Pool.Steps

/-! What a transaction does to the shared pages in one step. A page with unsaved changes is its
writer's own: the writer has it locked alone, and nobody else moves, writes or changes it. -/

namespace PagedTables.Pool

/-- What is done to pages and locks in one step. Whoever uses, writes or drops a page has its lock, and
nobody gives locks back before its changes are saved or dropped. -/
inductive Deed (pool : Pool) : TransactionId → Pool → Prop
  | served {owner : TransactionId} (page : PageId) (later : Pool)
      (serves : Serves page pool later) : Deed pool owner later
  | relocked {owner : TransactionId} (locks : LockManager)
      (further : pool.locks.table.Extends locks.table) (stats : Statistics) :
      Deed pool owner { pool with locks, stats }
  | used (access : Access) (stay : Nat)
      (holds : pool.locks.table.Holds access.owner access.page access.purpose.mode) (cache : Cache)
      (rewrites : Cache.Rewrites access.page stay (fun heap => (access.result heap).1) pool.cache
        cache) : Deed pool access.owner { pool with cache }
  | flushed {owner : TransactionId} (page : PageId)
      (holds : pool.locks.table.Holds owner page .shared) : Deed pool owner (pool.flushPage page).1
  | discarded {owner : TransactionId} (page : PageId)
      (holds : pool.locks.table.Holds owner page .shared) : Deed pool owner (pool.discardPage page)
  | released {owner : TransactionId}
      (saved : ∀ (page : PageId) (resident : Resident), pool.cache.frames[page]? = some resident →
        resident.frame.page.dirtiedBy ≠ some owner) : Deed pool owner (pool.releaseAll owner)

inductive Stores (pool : Pool) : Option PageId → Disk → Prop
  | nothing : Stores pool none pool.disk
  | created (name : String) (path : String) (disk : Disk)
      (adds : pool.disk.add name (.file .empty) = .ok (disk, path)) : Stores pool none disk
  | appended (file : HeapFile) (disk : Disk) (page : PageId)
      (appends : file.appendBlank pool.disk = .ok (disk, page)) : Stores pool none disk
  | written (page : PageId) (resident : Resident)
      (present : pool.cache.frames[page]? = some resident) (file : HeapFile)
      (registered : pool.tables[page.table]? = some file) (disk : Disk)
      (writes : file.writePage pool.disk resident.frame.page = .ok disk) :
      Stores pool (some page) disk

/-- Cached pages are named by their places, and one that was changed is locked by its writer. -/
structure Owned (pool : Pool) : Prop where
  valid : pool.locks.table.Valid
  indexed : pool.locks.table.Indexed
  stays : pool.cache.Distinct
  named : ∀ (page : PageId) (resident : Resident), pool.cache.frames[page]? = some resident →
    resident.frame.page.id = page
  locked : ∀ (page : PageId) (resident : Resident) (writer : TransactionId),
    pool.cache.frames[page]? = some resident → resident.frame.page.dirtiedBy = some writer →
      pool.locks.table.Holds writer page .exclusive

/-- What a step leaves to a transaction that did not take it: its locks, and the pages that it has
changed, which are neither moved nor written. -/
structure Spares (other : TransactionId) (pool later : Pool) : Prop where
  holds : ∀ (page : PageId) (mode : LockMode), pool.locks.table.Holds other page mode →
    later.locks.table.Holds other page mode
  pages : ∀ (page : PageId) (resident : Resident), pool.cache.frames[page]? = some resident →
    resident.frame.page.dirtiedBy = some other →
      later.cache.frames[page]?.map Resident.rested = some resident.rested
  files : ∃ written, Stores pool written later.disk ∧
    ∀ (page : PageId) (resident : Resident), pool.cache.frames[page]? = some resident →
      resident.frame.page.dirtiedBy = some other → written ≠ some page

variable {pool later : Pool} {owner other : TransactionId} {page : PageId} {resident : Resident}

/-- How a page in the cache has come about: it was there already, or was read or written just now, or
the holder of its lock has changed it. -/
inductive Entry (pool : Pool) (owner : TransactionId) (page : PageId) (heap : HeapPage) : Prop
  | kept (before : Resident) (present : pool.cache.frames[page]? = some before)
      (same : heap = before.frame.page)
  | clean (named : heap.id = page) (clean : heap.dirtiedBy = none)
  | written (holds : pool.locks.table.Holds owner page .exclusive) (before : Resident)
      (present : pool.cache.frames[page]? = some before)
      (written : before.frame.page.Written owner heap)

theorem Deed.entry (owned : pool.Owned) (deed : Deed pool owner later)
    (present : later.cache.frames[page]? = some resident) :
    Entry pool owner page resident.frame.page := by
  -- A deed leaves a page as it was, reads or writes it clean, or changes it under its exclusive
  -- lock.
  cases deed with
  | served served later serves =>
    rcases serves.cases present with ⟨before, found, same⟩ | ⟨rfl, _, _, read⟩
    · exact .kept before found (Resident.rested_eq_iff.mp same).2.2
    · obtain ⟨named, clean⟩ := of_readPage read
      exact .clean named clean
  | relocked locks further stats => exact .kept resident present rfl
  | released saved => exact .kept resident present rfl
  | used access stay holds cache rewrites =>
    obtain ⟨before, found, same | ⟨rfl, _, same⟩⟩ := rewrites.cases present
    · exact .kept before found (Resident.rested_eq_iff.mp same).2.2
    · have changed := (Resident.rested_eq_iff.mp same).2.2
      rcases access.purpose.act_cases access.owner before.frame.page with still | ⟨mode, written⟩
      · exact .kept before found (changed.trans still)
      · exact .written (mode ▸ holds) before found (changed ▸ written)
  | flushed flushed holds =>
    have flushes := pool.flushPage_flushes flushed
    generalize pool.flushPage flushed = result at flushes present
    cases flushes with
    | absent absent => exact .kept resident present rfl
    | clean before found clean => exact .kept resident present rfl
    | failed failure => exact .kept resident present rfl
    | written before found writer dirty file registered disk writes cache replaces stats =>
      rcases replaces.cases present with ⟨rfl, rfl⟩ | ⟨_, here⟩
      · exact .clean (owned.named page before found) rfl
      · exact .kept resident here rfl
  | discarded discarded holds =>
    have discards := pool.discardPage_discards discarded
    generalize pool.discardPage discarded = result at discards present
    cases discards with
    | absent absent => exact .kept resident present rfl
    | dropped cache drops stats =>
      obtain ⟨_, _, frames, _⟩ := Cache.of_discard drops
      exact .kept resident (Cache.cached_of_left frames present).2 rfl

theorem Deed.stays (deed : Deed pool owner later) (stays : pool.cache.Distinct) :
    later.cache.Distinct := by
  cases deed with
  | served page later serves => exact serves.distinct stays
  | relocked locks further stats => exact stays
  | released saved => exact stays
  | used access stay holds cache rewrites => exact stays.rewrites rewrites
  | flushed page holds =>
    have flushes := pool.flushPage_flushes page
    generalize pool.flushPage page = result at flushes
    cases flushes with
    | absent absent => exact stays
    | clean before found clean => exact stays
    | failed failure => exact stays
    | written before found writer dirty file registered disk writes cache replaces stats =>
      exact stays.replaces found (by rfl) replaces
  | discarded page holds =>
    have discards := pool.discardPage_discards page
    generalize pool.discardPage page = result at discards
    cases discards with
    | absent absent => exact stays
    | dropped cache drops stats => exact stays.discards drops

theorem Deed.locks (deed : Deed pool owner later) :
    pool.locks.table.Extends later.locks.table ∨
      later = pool.releaseAll owner ∧ ∀ (page : PageId) (resident : Resident),
        pool.cache.frames[page]? = some resident → resident.frame.page.dirtiedBy ≠ some owner := by
  cases deed with
  | served page later serves => exact .inl (.of_same (by rw [serves.locks]) (by rw [serves.locks]))
  | relocked locks further stats => exact .inl further
  | used access stay holds cache rewrites => exact .inl (.of_same rfl rfl)
  | released saved => exact .inr ⟨rfl, saved⟩
  | flushed page holds =>
    rw [flushPage_locks]
    exact .inl (.of_same rfl rfl)
  | discarded page holds =>
    rw [discardPage_locks]
    exact .inl (.of_same rfl rfl)

theorem Deed.owned (owned : pool.Owned) (deed : Deed pool owner later) : later.Owned := by
  have named : ∀ (page : PageId) (resident : Resident), later.cache.frames[page]? = some resident →
      resident.frame.page.id = page := by
    intro page resident present
    cases deed.entry owned present with
    | kept before found same => exact same ▸ owned.named page before found
    | clean named clean => exact named
    | written holds before found written => exact written.id.trans (owned.named page before found)
  -- Whoever has marked a page had it exclusively before the step.
  have marked : ∀ (page : PageId) (resident : Resident) (writer : TransactionId),
      later.cache.frames[page]? = some resident → resident.frame.page.dirtiedBy = some writer →
        pool.locks.table.Holds writer page .exclusive := by
    intro page resident writer present dirty
    cases deed.entry owned present with
    | kept before found same => exact owned.locked page before writer found (same ▸ dirty)
    | clean named clean =>
      rw [clean] at dirty
      cases dirty
    | written holds before found written =>
      rw [written.mark, Option.some.injEq] at dirty
      exact dirty ▸ holds
  rcases deed.locks with further | ⟨rfl, saved⟩
  · exact ⟨further.valid owned.valid, further.indexed owned.indexed, deed.stays owned.stays, named,
      fun page resident writer present dirty =>
        further.holds (marked page resident writer present dirty)⟩
  · refine ⟨owned.valid.releaseAll owner, owned.indexed.releaseAll owner, owned.stays, owned.named,
      fun page resident writer present dirty => ?_⟩
    have apart : writer ≠ owner := by
      rintro rfl
      exact saved page resident present dirty
    exact (owned.locked page resident writer present dirty).releaseAll apart

theorem Owned.apart (owned : pool.Owned) {place : PageId} {mode : LockMode} (apart : other ≠ owner)
    (present : pool.cache.frames[page]? = some resident)
    (dirty : resident.frame.page.dirtiedBy = some other)
    (holds : pool.locks.table.Holds owner place mode) : page ≠ place := by
  rintro rfl
  exact apart ((owned.locked page resident other present dirty).alone owned.valid holds).symm

theorem Deed.spares (owned : pool.Owned) (deed : Deed pool owner later) (apart : other ≠ owner) :
    Spares other pool later := by
  have holds : ∀ (page : PageId) (mode : LockMode), pool.locks.table.Holds other page mode →
      later.locks.table.Holds other page mode := by
    intro page mode holds
    rcases deed.locks with further | ⟨rfl, _⟩
    · exact further.holds holds
    · exact holds.releaseAll apart
  have unwritten : later.disk = pool.disk → ∃ written, Stores pool written later.disk ∧
      ∀ (page : PageId) (resident : Resident), pool.cache.frames[page]? = some resident →
        resident.frame.page.dirtiedBy = some other → written ≠ some page := by
    intro same
    rw [same]
    exact ⟨none, .nothing, fun _ _ _ _ => by simp⟩
  have untouched : later.cache = pool.cache → later.disk = pool.disk → Spares other pool later := by
    intro same disk
    refine ⟨holds, fun page resident present _ => ?_, unwritten disk⟩
    rw [same, present, Option.map_some]
  cases deed with
  | relocked locks further stats => exact untouched rfl rfl
  | released saved => exact untouched rfl rfl
  | served page later serves =>
    refine ⟨holds, fun place resident present dirty => ?_, unwritten serves.disk⟩
    -- A page that is not clean does not make room for others.
    by_cases here : place = page
    · subst here
      rcases serves.here with same | ⟨absent, _⟩
      · rw [same, present, Option.map_some]
      · rw [present] at absent
        cases absent
    · rcases serves.elsewhere place here with same | ⟨_, victim, found, may⟩
      · rw [same, present, Option.map_some]
      · rw [present, Option.some.injEq] at found
        simp [← found, Frame.isEvictable, HeapPage.isDirty, dirty] at may
  | used access stay held cache rewrites =>
    refine ⟨holds, fun place resident present dirty => ?_, unwritten rfl⟩
    rw [rewrites.elsewhere place (owned.apart apart present dirty held), present, Option.map_some]
  | flushed page held =>
    have flushes := pool.flushPage_flushes page
    generalize pool.flushPage page = result at flushes holds untouched
    cases flushes with
    | absent absent => exact untouched rfl rfl
    | clean before found clean => exact untouched rfl rfl
    | failed failure => exact untouched rfl rfl
    | written before found writer mark file registered disk writes cache replaces stats =>
      have stores := Stores.written page before found file
        (owned.named page before found ▸ registered) disk writes
      refine ⟨holds, fun place resident present dirty => ?_, some page, stores,
        fun place resident present dirty => ?_⟩
      · have elsewhere := owned.apart apart present dirty held
        rw [replaces.elsewhere elsewhere, present, Option.map_some]
      · rw [ne_eq, Option.some.injEq]
        exact (owned.apart apart present dirty held).symm
  | discarded page held =>
    have discards := pool.discardPage_discards page
    generalize pool.discardPage page = result at discards holds untouched unwritten
    cases discards with
    | absent absent => exact untouched rfl rfl
    | dropped cache drops stats =>
      obtain ⟨_, _, frames, _⟩ := Cache.of_discard drops
      refine ⟨holds, fun place resident present dirty => ?_, unwritten rfl⟩
      rw [frames, if_neg (owned.apart apart present dirty held), present, Option.map_some]

theorem Deed.unmarked (owned : pool.Owned) (deed : Deed pool owner later) (apart : other ≠ owner)
    (present : later.cache.frames[page]? = some resident)
    (dirty : resident.frame.page.dirtiedBy = some other) :
    ∃ before, pool.cache.frames[page]? = some before ∧
      before.frame.page.dirtiedBy = some other := by
  cases deed.entry owned present with
  | kept before found same => exact ⟨before, found, same ▸ dirty⟩
  | clean named clean =>
    rw [clean] at dirty
    cases dirty
  | written holds before found written =>
    rw [written.mark, Option.some.injEq] at dirty
    exact absurd dirty.symm apart

theorem Owned.lock_eq (owned : pool.Owned)
    (present : pool.cache.frames[page]? = some resident)
    (dirty : resident.frame.page.dirtiedBy = some owner) :
    pool.locks.table.locks[page]? = some ⟨.exclusive, {owner}⟩ := by
  obtain ⟨⟨mode, holders⟩, found, member, exclusive⟩ :=
    owned.locked page resident owner present dirty
  obtain rfl : mode = .exclusive := exclusive rfl
  have alone := (owned.valid page _ found).alone rfl
  have only : holders = {owner} := by
    refine Std.ExtTreeSet.ext_mem fun holder => ?_
    rw [Std.ExtTreeSet.singleton_eq_insert, Lock.mem_insert]
    constructor
    · exact fun also => .inl (alone holder also owner member)
    · rintro (rfl | absurd)
      · exact member
      · simp at absurd
  rw [found, only]

theorem Deed.still (pool : Pool) (owner : TransactionId) : Deed pool owner pool :=
  .relocked pool.locks (.of_same rfl rfl) pool.stats

end PagedTables.Pool
