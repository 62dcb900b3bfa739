import PagedTables.Proofs.Pool.Sound

/-! The files and the cache balance with a ledger of edits: a file has the committed edits of each of
its pages, a clean page is as its file has it, and a dirty one has its writer's edits besides. -/

namespace PagedTables

/-- The edits that stand, page by page. -/
@[ext]
structure Ledger where
  /-- By transactions that have ended, one after another. -/
  committed : PageId → List Edit
  /-- By transactions that go on; they are in the cache only. -/
  pending : TransactionId → PageId → List Edit
  /-- By transactions that are committing; they have reached the file. -/
  written : TransactionId → PageId → List Edit

/-- The slots of a page after edits of what its file had on another disk. -/
def HeapFile.replayed (file : HeapFile) (start : Disk) (page : PageId) (edits : List Edit) :
    Except Failure Slots :=
  (file.stored start page).map (Edit.replay page edits)

theorem HeapFile.replayed_append (file : HeapFile) (start : Disk) (page : PageId)
    (first second : List Edit) :
    file.replayed start page (first ++ second) =
      (file.replayed start page first).map (Edit.replay page second) :=
  Edit.map_replay_append page first second _

namespace Pool

def heap? (pool : Pool) (page : PageId) : Option HeapPage :=
  pool.cache.frames[page]?.map fun resident => resident.frame.page

/-- The slots of a page as everybody would see them: those in the cache, or else those of the file. -/
def logical (pool : Pool) (file : HeapFile) (page : PageId) : Except Failure Slots :=
  match pool.heap? page with
  | some heap => .ok heap.slots
  | none => file.stored pool.disk page

/-- A page balances with the ledger, on a pool that began on the disk `start`. -/
structure Balanced (start : Disk) (ledger : Ledger) (pool : Pool) (page : PageId) : Prop where
  settled : ∀ file, pool.tables[page.table]? = some file →
    (∀ owner, ledger.written owner page = []) →
      file.stored pool.disk page = file.replayed start page (ledger.committed page)
  ahead : ∀ file owner, pool.tables[page.table]? = some file → ledger.written owner page ≠ [] →
    file.stored pool.disk page =
      file.replayed start page (ledger.committed page ++ ledger.written owner page)
  clean : ∀ file heap, pool.tables[page.table]? = some file → pool.heap? page = some heap →
    heap.dirtiedBy = none → file.stored pool.disk page = .ok heap.slots
  dirty : ∀ file heap owner, pool.tables[page.table]? = some file → pool.heap? page = some heap →
    heap.dirtiedBy = some owner →
      file.replayed start page (ledger.committed page ++ ledger.pending owner page) =
        .ok heap.slots
  marked : ∀ heap owner, pool.heap? page = some heap → heap.dirtiedBy = some owner →
    ledger.pending owner page ≠ []
  cached : ∀ owner, ledger.pending owner page ≠ [] →
    ∃ heap, pool.heap? page = some heap ∧ heap.dirtiedBy = some owner
  locked : ∀ owner, ledger.pending owner page ≠ [] ∨ ledger.written owner page ≠ [] →
    pool.locks.table.Holds owner page .exclusive
  once : ∀ owner, ledger.pending owner page = [] ∨ ledger.written owner page = []
  unknown : pool.tables[page.table]? = none →
    ledger.committed page = [] ∧ ∀ owner, ledger.written owner page = []

variable {start : Disk} {ledger : Ledger} {pool later : Pool} {page : PageId} {file : HeapFile}
  {heap : HeapPage} {owner other : TransactionId}

theorem Balanced.stored_eq (balanced : pool.Balanced start ledger page)
    (registered : pool.tables[page.table]? = some file)
    (others : ∀ other, other ≠ owner → ledger.written other page = []) :
    file.stored pool.disk page =
      file.replayed start page (ledger.committed page ++ ledger.written owner page) := by
  by_cases written : ledger.written owner page = []
  · rw [written, List.append_nil]
    refine balanced.settled file registered fun other => ?_
    by_cases same : other = owner
    · exact same ▸ written
    · exact others other same
  · exact balanced.ahead file owner registered written

section View

variable (balanced : pool.Balanced start ledger page) (valid : pool.locks.table.Valid)
include balanced valid

theorem Balanced.others (holds : pool.locks.table.Holds owner page .shared)
    (apart : other ≠ owner) :
    ledger.pending other page = [] ∧ ledger.written other page = [] := by
  have only : ¬(ledger.pending other page ≠ [] ∨ ledger.written other page ≠ []) := fun edits =>
    apart ((balanced.locked other edits).alone valid holds).symm
  tauto

theorem Balanced.logical_eq (registered : pool.tables[page.table]? = some file)
    (holds : pool.locks.table.Holds owner page .shared) :
    pool.logical file page = file.replayed start page
      (ledger.committed page ++ ledger.written owner page ++ ledger.pending owner page) := by
  -- Unless there are edits that only the cache has, what the file has is what is seen.
  have stored : ledger.pending owner page = [] → file.stored pool.disk page = file.replayed start
      page (ledger.committed page ++ ledger.written owner page ++ ledger.pending owner page) := by
    intro saved
    rw [saved, List.append_nil]
    exact balanced.stored_eq registered fun other apart => (balanced.others valid holds apart).2
  unfold logical
  cases here : pool.heap? page with
  | none =>
    refine stored ?_
    by_contra edits
    obtain ⟨heap, present, _⟩ := balanced.cached owner edits
    rw [here] at present
    cases present
  | some heap =>
    simp only
    cases mark : heap.dirtiedBy with
    | none =>
      rw [← balanced.clean file heap registered here mark]
      refine stored ?_
      by_contra edits
      obtain ⟨same, present, marked⟩ := balanced.cached owner edits
      rw [here, Option.some.injEq] at present
      rw [← present, mark] at marked
      cases marked
    | some writer =>
      have edits := balanced.marked heap writer here mark
      obtain rfl : owner = writer := (balanced.locked writer (.inl edits)).alone valid holds
      have written := (balanced.once owner).resolve_left edits
      rw [written, List.append_nil]
      exact (balanced.dirty file heap owner registered here mark).symm

end View

theorem Balanced.congr {ledger' : Ledger} (balanced : pool.Balanced start ledger page)
    (tables : later.tables[page.table]? = pool.tables[page.table]?)
    (stored : ∀ file, pool.tables[page.table]? = some file →
      file.stored later.disk page = file.stored pool.disk page)
    (heap : later.heap? page = pool.heap? page)
    (locks : ∀ owner, pool.locks.table.Holds owner page .exclusive →
      later.locks.table.Holds owner page .exclusive)
    (committed : ledger'.committed page = ledger.committed page)
    (pending : ∀ owner, ledger'.pending owner page = ledger.pending owner page)
    (written : ∀ owner, ledger'.written owner page = ledger.written owner page) :
    later.Balanced start ledger' page where
  settled file registered nobody := by
    rw [committed, stored file (tables ▸ registered)]
    exact balanced.settled file (tables ▸ registered) fun owner => written owner ▸ nobody owner
  ahead file owner registered edits := by
    rw [committed, written, stored file (tables ▸ registered)]
    exact balanced.ahead file owner (tables ▸ registered) (written owner ▸ edits)
  clean file found registered present clean := by
    rw [stored file (tables ▸ registered)]
    exact balanced.clean file found (tables ▸ registered) (heap ▸ present) clean
  dirty file found owner registered present mark := by
    rw [committed, pending]
    exact balanced.dirty file found owner (tables ▸ registered) (heap ▸ present) mark
  marked found owner present mark :=
    pending owner ▸ balanced.marked found owner (heap ▸ present) mark
  cached owner edits := heap ▸ balanced.cached owner (pending owner ▸ edits)
  locked owner edits := locks owner (balanced.locked owner (pending owner ▸ written owner ▸ edits))
  once owner := pending owner ▸ written owner ▸ balanced.once owner
  unknown absent := by
    obtain ⟨none, nobody⟩ := balanced.unknown (tables ▸ absent)
    exact ⟨committed.trans none, fun owner => (written owner).trans (nobody owner)⟩

theorem Balanced.relocked (balanced : pool.Balanced start ledger page) {locks : LockManager}
    (further : pool.locks.table.Extends locks.table) (stats : Statistics) :
    ({ pool with locks, stats } : Pool).Balanced start ledger page :=
  balanced.congr rfl (fun _ _ => rfl) rfl (fun _ => further.holds) rfl (fun _ => rfl) fun _ => rfl

theorem Balanced.evict (balanced : pool.Balanced start ledger page)
    (tables : later.tables = pool.tables) (disk : later.disk = pool.disk)
    (locks : later.locks = pool.locks) (before : pool.heap? page = some heap)
    (clean : heap.dirtiedBy = none) (gone : later.heap? page = none) :
    later.Balanced start ledger page where
  settled file registered := disk ▸ balanced.settled file (tables ▸ registered)
  ahead file owner registered := disk ▸ balanced.ahead file owner (tables ▸ registered)
  clean file found registered present := by
    rw [gone] at present
    cases present
  dirty file found owner registered present := by
    rw [gone] at present
    cases present
  marked found owner present := by
    rw [gone] at present
    cases present
  cached owner edits := by
    obtain ⟨found, present, mark⟩ := balanced.cached owner edits
    rw [before, Option.some.injEq] at present
    rw [← present, clean] at mark
    cases mark
  locked owner edits := locks ▸ balanced.locked owner edits
  once := balanced.once
  unknown absent := balanced.unknown (tables ▸ absent)

theorem Balanced.load (balanced : pool.Balanced start ledger page)
    (tables : later.tables = pool.tables) (disk : later.disk = pool.disk)
    (locks : later.locks = pool.locks) (before : pool.heap? page = none)
    (now : later.heap? page = some heap) (clean : heap.dirtiedBy = none)
    (read : ∀ file, pool.tables[page.table]? = some file →
      file.readPage pool.disk page = .ok heap) : later.Balanced start ledger page where
  settled file registered := disk ▸ balanced.settled file (tables ▸ registered)
  ahead file owner registered := disk ▸ balanced.ahead file owner (tables ▸ registered)
  clean file found registered present _ := by
    rw [now, Option.some.injEq] at present
    rw [← present, disk]
    exact HeapFile.stored_of_read (read file (tables ▸ registered))
  dirty file found owner registered present mark := by
    rw [now, Option.some.injEq] at present
    rw [← present, clean] at mark
    cases mark
  marked found owner present mark := by
    rw [now, Option.some.injEq] at present
    rw [← present, clean] at mark
    cases mark
  cached owner edits := by
    obtain ⟨found, present, _⟩ := balanced.cached owner edits
    rw [before] at present
    cases present
  locked owner edits := locks ▸ balanced.locked owner edits
  once := balanced.once
  unknown absent := balanced.unknown (tables ▸ absent)

theorem heap?_of_rested (same : later.cache.frames[page]?.map Resident.rested =
    pool.cache.frames[page]?.map Resident.rested) : later.heap? page = pool.heap? page := by
  have heaps := congrArg (Option.map fun resident : Resident => resident.frame.page) same
  rw [Option.map_map, Option.map_map] at heaps
  exact heaps

theorem dirtiedBy_of_isEvictable {frame : Frame} (h : frame.isEvictable = true) :
    frame.page.dirtiedBy = none := by
  simp only [Frame.isEvictable, HeapPage.isDirty, Bool.and_eq_true, Bool.not_eq_eq_eq_not,
    Bool.not_true, Option.isSome_eq_false_iff, Option.isNone_iff_eq_none] at h
  exact h.2

theorem Balanced.serves {served : PageId} (balanced : pool.Balanced start ledger page)
    (sound : pool.Sound start) (h : Serves served pool later) :
    later.Balanced start ledger page := by
  have quiet : later.heap? page = pool.heap? page → later.Balanced start ledger page := fun same =>
    balanced.congr (by rw [h.tables]) (fun _ _ => by rw [h.disk]) same (fun _ => h.locks ▸ id) rfl
      (fun _ => rfl) fun _ => rfl
  by_cases here : page = served
  · subst here
    rcases h.here with same | ⟨absent, resident, present, _, read⟩
    · exact quiet (heap?_of_rested same)
    · obtain ⟨file, housed, clean, read'⟩ := sound.of_readPage read
      have before : pool.heap? page = none := by simp [heap?, absent]
      have now : later.heap? page = some resident.frame.page := by simp [heap?, present]
      refine balanced.load h.tables h.disk h.locks before now clean fun other registered => ?_
      obtain rfl : file = other := Option.some.inj (housed.table.symm.trans registered)
      exact read'
  · rcases h.elsewhere page here with same | ⟨gone, resident, present, may⟩
    · exact quiet (by simp only [heap?, same])
    · have before : pool.heap? page = some resident.frame.page := by simp [heap?, present]
      have now : later.heap? page = none := by simp [heap?, gone]
      exact balanced.evict h.tables h.disk h.locks before (dirtiedBy_of_isEvictable may) now

theorem Balanced.edit {ledger' : Ledger} {heap' : HeapPage} {edits : List Edit}
    (balanced : pool.Balanced start ledger page) (valid : pool.locks.table.Valid)
    (tables : later.tables = pool.tables) (disk : later.disk = pool.disk)
    (locks : later.locks = pool.locks)
    (registered : pool.tables[page.table]? = some file)
    (holds : pool.locks.table.Holds owner page .exclusive)
    (unwritten : ledger.written owner page = [])
    (before : pool.heap? page = some heap) (now : later.heap? page = some heap')
    (mark : heap'.dirtiedBy = some owner) (slots : heap'.slots = Edit.replay page edits heap.slots)
    (committed : ledger'.committed page = ledger.committed page)
    (mine : ledger'.pending owner page = ledger.pending owner page ++ edits)
    (some : ledger'.pending owner page ≠ [])
    (theirs : ∀ other, other ≠ owner → ledger'.pending other page = ledger.pending other page)
    (written : ∀ other, ledger'.written other page = ledger.written other page) :
    later.Balanced start ledger' page := by
  have others := fun other (apart : other ≠ owner) => balanced.others valid holds.shared apart
  have view := balanced.logical_eq valid registered holds.shared
  simp only [logical, before, unwritten, List.append_nil] at view
  have writer : ∀ other, ledger'.pending other page ≠ [] → other = owner := by
    intro other edits
    by_contra apart
    exact edits ((theirs other apart).trans (others other apart).1)
  -- The lock is exclusive, so no commit of anybody else is under way on this page.
  have nobody : ∀ other, ledger.written other page = [] := by
    intro other
    by_cases same : other = owner
    · exact same ▸ unwritten
    · exact (others other same).2
  refine ⟨fun found here nobody => ?_, fun found other here edits => ?_,
    fun found present here also clean => ?_, fun found present other here also marked => ?_,
    fun present other also marked => ?_, fun other edits => ?_, fun other edits => ?_,
    fun other => .inr ((written other).trans (nobody other)), fun absent => ?_⟩
  · rw [committed, disk]
    exact balanced.settled found (tables ▸ here) fun other => written other ▸ nobody other
  · exact absurd ((written other).trans (nobody other)) edits
  · rw [now, Option.some.injEq] at also
    rw [← also, mark] at clean
    cases clean
  · rw [now, Option.some.injEq] at also
    rw [← also, mark, Option.some.injEq] at marked
    subst marked also
    obtain rfl : file = found :=
      Option.some.inj (registered.symm.trans (tables ▸ here))
    rw [committed, mine, ← List.append_assoc, HeapFile.replayed_append, ← view, slots]
    rfl
  · rw [now, Option.some.injEq] at also
    rw [← also, mark, Option.some.injEq] at marked
    exact marked ▸ some
  · exact ⟨heap', now, writer other edits ▸ mark⟩
  · rcases edits with edits | edits
    · exact locks ▸ writer other edits ▸ holds
    · exact absurd ((written other).trans (nobody other)) edits
  · rw [tables, registered] at absent
    cases absent

theorem Balanced.flush {ledger' : Ledger} {heap' : HeapPage}
    (balanced : pool.Balanced start ledger page) (valid : pool.locks.table.Valid)
    (tables : later.tables = pool.tables) (locks : later.locks = pool.locks)
    (registered : pool.tables[page.table]? = some file)
    (before : pool.heap? page = some heap) (marked : heap.dirtiedBy = some owner)
    (stored : file.stored later.disk page = .ok heap.slots)
    (now : later.heap? page = some heap') (clean : heap'.dirtiedBy = none)
    (slots : heap'.slots = heap.slots)
    (committed : ledger'.committed page = ledger.committed page)
    (mine : ledger'.pending owner page = [])
    (kept : ledger'.written owner page = ledger.pending owner page)
    (theirs : ∀ other, other ≠ owner → ledger'.pending other page = ledger.pending other page)
    (written : ∀ other, other ≠ owner → ledger'.written other page = ledger.written other page) :
    later.Balanced start ledger' page := by
  have edits := balanced.marked heap owner before marked
  have holds := balanced.locked owner (.inl edits)
  have others := fun other (apart : other ≠ owner) => balanced.others valid holds.shared apart
  -- The mark is that of the only writer, so nobody else has an edit that waits for its commit.
  have nobody : ∀ other, ledger'.pending other page = [] := by
    intro other
    by_cases same : other = owner
    · exact same ▸ mine
    · exact (theirs other same).trans (others other same).1
  have writer : ∀ other, ledger'.written other page ≠ [] → other = owner := by
    intro other edits
    by_contra apart
    exact edits ((written other apart).trans (others other apart).2)
  have only : ∀ found, later.tables[page.table]? = some found → file = found := fun found here =>
    Option.some.inj (registered.symm.trans (tables ▸ here))
  refine ⟨fun found here nobody => ?_, fun found other here edits => ?_,
    fun found present here also clean => ?_, fun found present other here also marked => ?_,
    fun present other also marked => ?_, fun other edits => absurd (nobody other) edits,
    fun other edits => ?_, fun other => .inl (nobody other), fun absent => ?_⟩
  · exact absurd (kept.symm.trans (nobody owner)) edits
  · obtain rfl := only found here
    obtain rfl := writer other edits
    rw [stored, committed, kept]
    exact (balanced.dirty file heap other registered before marked).symm
  · obtain rfl := only found here
    rw [now, Option.some.injEq] at also
    rw [stored, ← also, slots]
  · rw [now, Option.some.injEq] at also
    rw [← also, clean] at marked
    cases marked
  · rw [now, Option.some.injEq] at also
    rw [← also, clean] at marked
    cases marked
  · rcases edits with edits | edits
    · exact absurd (nobody other) edits
    · exact locks ▸ writer other edits ▸ holds
  · rw [tables, registered] at absent
    cases absent

theorem Balanced.discard {ledger' : Ledger} (balanced : pool.Balanced start ledger page)
    (valid : pool.locks.table.Valid) (tables : later.tables = pool.tables)
    (disk : later.disk = pool.disk) (locks : later.locks = pool.locks)
    (holds : pool.locks.table.Holds owner page .shared) (gone : later.heap? page = none)
    (committed : ledger'.committed page = ledger.committed page)
    (mine : ledger'.pending owner page = [])
    (theirs : ∀ other, other ≠ owner → ledger'.pending other page = ledger.pending other page)
    (written : ∀ other, ledger'.written other page = ledger.written other page) :
    later.Balanced start ledger' page := by
  -- The lock may be shared, but then nobody else has edits that would be lost.
  have nobody : ∀ other, ledger'.pending other page = [] := by
    intro other
    by_cases same : other = owner
    · exact same ▸ mine
    · exact (theirs other same).trans (balanced.others valid holds same).1
  refine ⟨fun found here nobody => ?_, fun found other here edits => ?_,
    fun found present here also => ?_, fun found present other here also => ?_,
    fun present other also => ?_, fun other edits => absurd (nobody other) edits,
    fun other edits => ?_, fun other => .inl (nobody other), fun absent => ?_⟩
  · rw [committed, disk]
    exact balanced.settled found (tables ▸ here) fun other => written other ▸ nobody other
  · rw [committed, written, disk]
    exact balanced.ahead found other (tables ▸ here) (written other ▸ edits)
  · rw [gone] at also
    cases also
  · rw [gone] at also
    cases also
  · rw [gone] at also
    cases also
  · rcases edits with edits | edits
    · exact absurd (nobody other) edits
    · exact locks ▸ balanced.locked other (.inr (written other ▸ edits))
  · obtain ⟨none, empty⟩ := balanced.unknown (tables ▸ absent)
    exact ⟨committed.trans none, fun other => (written other).trans (empty other)⟩

theorem Balanced.release {ledger' : Ledger} (balanced : pool.Balanced start ledger page)
    (valid : pool.locks.table.Valid) (saved : ledger.pending owner page = [])
    (committed : ledger'.committed page = ledger.committed page ++ ledger.written owner page)
    (mine : ledger'.pending owner page = [] ∧ ledger'.written owner page = [])
    (theirs : ∀ other, other ≠ owner → ledger'.pending other page = ledger.pending other page ∧
      ledger'.written other page = ledger.written other page) :
    (pool.releaseAll owner).Balanced start ledger' page := by
  have pending : ∀ other, ledger'.pending other page = ledger.pending other page := by
    intro other
    by_cases same : other = owner
    · rw [same, mine.1, saved]
    · exact (theirs other same).1
  -- Whoever else has edits holds the lock alone, so the owner has written nothing.
  have alone : ∀ other, other ≠ owner →
      ledger.pending other page ≠ [] ∨ ledger.written other page ≠ [] →
        ledger'.committed page = ledger.committed page := by
    intro other apart edits
    have holds := balanced.locked other edits
    rw [committed, (balanced.others valid holds.shared (Ne.symm apart)).2, List.append_nil]
  have another : ∀ other, ledger'.written other page ≠ [] → other ≠ owner := by
    rintro other edits rfl
    exact edits mine.2
  have writer : ∀ other, ledger.pending other page ≠ [] → other ≠ owner := by
    rintro other edits rfl
    exact edits saved
  refine ⟨fun file registered nobody => ?_, fun file other registered edits => ?_,
    balanced.clean, fun file heap other registered present marked => ?_,
    fun heap other present marked => pending other ▸ balanced.marked heap other present marked,
    fun other edits => balanced.cached other (pending other ▸ edits),
    fun other edits => ?_, fun other => ?_, fun absent => ?_⟩
  · rw [committed]
    exact balanced.stored_eq registered fun other apart => (theirs other apart).2 ▸ nobody other
  · have apart := another other edits
    have kept := (theirs other apart).2
    rw [alone other apart (.inr (kept ▸ edits)), kept]
    exact balanced.ahead file other registered (kept ▸ edits)
  · have edits := balanced.marked heap other present marked
    rw [pending, alone other (writer other edits) (.inl edits)]
    exact balanced.dirty file heap other registered present marked
  · have apart : other ≠ owner := by
      rcases edits with edits | edits
      · exact writer other (pending other ▸ edits)
      · exact another other edits
    refine (balanced.locked other ?_).releaseAll apart
    rwa [← (theirs other apart).1, ← (theirs other apart).2]
  · by_cases same : other = owner
    · exact .inr (same ▸ mine.2)
    · rw [(theirs other same).1, (theirs other same).2]
      exact balanced.once other
  · obtain ⟨none, empty⟩ := balanced.unknown absent
    refine ⟨?_, fun other => ?_⟩
    · rw [committed, none, empty owner]
      rfl
    · by_cases same : other = owner
      · exact same ▸ mine.2
      · exact (theirs other same).2.trans (empty other)

theorem Balanced.register (balanced : pool.Balanced start ledger page) (sound : pool.Sound start)
    {disk : Disk} (grows : pool.disk.Grows disk) {table : TableId}
    (free : pool.tables[table]? = none)
    (fresh : ∀ (other : TableId) (file' : HeapFile), pool.tables[other]? = some file' →
      file'.path ≠ file.path) (nextTable : UInt32) :
    ({ pool with disk, tables := pool.tables.insert table file, nextTable } : Pool).Balanced start
      ledger page := by
  by_cases new : page.table = table
  -- Nobody has edited the new table's pages, and nothing has touched its file.
  · rw [← new] at free
    obtain ⟨nothing, nobody⟩ := balanced.unknown free
    have uncached : pool.heap? page = none := by
      unfold heap?
      cases present : pool.cache.frames[page]? with
      | none => rfl
      | some resident =>
        obtain ⟨holder, housed⟩ := sound.housed page resident present
        rw [housed.table] at free
        cases free
    have contents : disk.contents file.path = start.contents file.path := by
      rw [grows.contents]
      exact sound.untouched file.path fun other found here => fresh other found here
    refine ⟨fun found here _ => ?_, fun found owner here edits => absurd (nobody owner) edits,
      fun found heap here present => ?_, fun found heap owner here present => ?_,
      fun heap owner present => ?_, balanced.cached, balanced.locked, balanced.once,
      fun absent => ?_⟩
    · obtain rfl : file = found := by simpa [new] using here
      rw [nothing, HeapFile.replayed, Edit.map_replay_nil]
      exact HeapFile.stored_congr (HeapFile.readPage_congr contents)
    · exact absurd (uncached.symm.trans present) (by simp)
    · exact absurd (uncached.symm.trans present) (by simp)
    · exact absurd (uncached.symm.trans present) (by simp)
    · simp [new] at absent
  · refine balanced.congr ?_ (fun found _ => ?_) rfl (fun _ => id) rfl (fun _ => rfl) fun _ => rfl
    · have apart : ¬compare table page.table = .eq := fun equal =>
        new (Std.LawfulEqOrd.compare_eq_iff_eq.mp equal).symm
      rw [Std.ExtTreeMap.getElem?_insert, if_neg apart]
    · exact HeapFile.stored_congr (HeapFile.readPage_congr (grows.contents found.path))

end Pool
end PagedTables
