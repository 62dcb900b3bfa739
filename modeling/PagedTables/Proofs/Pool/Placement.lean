import PagedTables.Proofs.Pool.Balance
import PagedTables.Proofs.Pool.Completion
import PagedTables.Proofs.Pool.Intact

/-! Where a tuple belongs: in the first free slot of the first page that has one, or, when all pages are
full, in the first slot of a page more. -/

namespace PagedTables

/-- The slots of a page that was asked for. A page behind the end of the file counts as free. -/
def HeapFile.listed (file : HeapFile) : Except Failure HeapPage → Except Failure Slots
  | .ok heap => .ok heap.slots
  | .error (.error (.pageNotFound _)) => .ok (List.replicate file.layout.numSlots none)
  | .error failure => .error failure

theorem HeapFile.stored_eq (file : HeapFile) (disk : Disk) (page : PageId) :
    file.stored disk page = file.listed (file.readPage disk page) := by
  unfold stored listed
  cases file.readPage disk page with
  | ok heap => rfl
  | error failure =>
    cases failure with
    | fault cause => rfl
    | error cause => cases cause <;> rfl

structure HeapFile.Lengthens (file : HeapFile) (disk later : Disk) : Prop where
  made : file.appendBlank disk = .ok (later, file.lastPage disk)
  appends : file.Appends disk later
  count : (file.numPages later).toNat = (file.numPages disk).toNat + 1

theorem HeapFile.Proper.lengthens {file : HeapFile} {disk later : Disk} {page : PageId}
    (proper : file.Proper) (few : file.HasNumber disk)
    (made : file.appendBlank disk = .ok (later, page)) :
    file.Lengthens disk later ∧ page = file.lastPage disk := by
  obtain ⟨appends, rfl⟩ := proper.appends (Nat.lt_of_lt_pred few) made
  exact ⟨⟨made, appends, numPages_appendBlank proper.pageSize_pos few made⟩, rfl⟩

theorem HeapPage.freeCount_eq_zero {heap : HeapPage} : heap.freeCount = 0 ↔ none ∉ heap.slots := by
  rw [freeCount, List.countP_eq_zero]
  refine ⟨fun used member => used none member rfl, fun used slot member => ?_⟩
  cases slot with
  | none => exact absurd member used
  | some tuple => simp

theorem HeapPage.insert_of_free {heap : HeapPage} (free : heap.freeCount ≠ 0) (tuple : Tuple) :
    (∃ failure, heap.insert tuple = .error failure ∧ failure.isFull = false) ∨
      ∃ slot, heap.slots.findIdx? Option.isNone = some slot ∧ heap.insert tuple = .ok
        ({ heap with
            slots := heap.slots.set slot (some (tuple.setRecordId (some ⟨heap.id, slot⟩))) },
          ⟨heap.id, slot⟩) := by
  unfold insert
  cases checked : heap.schema.validate tuple with
  | error failure =>
    refine .inl ⟨failure, rfl, ?_⟩
    unfold Schema.validate at checked
    split at checked <;> cases checked
    rfl
  | ok valid =>
    cases first : heap.firstFree with
    | none =>
      have used := List.findIdx?_eq_none_iff.mp first
      exact absurd (List.countP_eq_zero.mpr fun slot member => by simp [used slot member]) free
    | some slot => exact .inr ⟨slot, first, rfl⟩

inductive Insertion.Tries (job : Insertion) (owner : TransactionId) (heap : HeapPage)
    (full : Progress) : HeapPage × Progress → Prop
  | full (none : Option.none ∉ heap.slots) : Tries job owner heap full (heap, full)
  | refused (free : Option.none ∈ heap.slots) (failure : Failure) (other : failure.isFull = false) :
      Tries job owner heap full (heap, .failed failure)
  | put (slot : Nat) (first : heap.slots.findIdx? Option.isNone = some slot) :
      Tries job owner heap full
        (HeapPage.markDirty
          { heap with
            slots := heap.slots.set slot (some (job.tuple.setRecordId (some ⟨heap.id, slot⟩))) }
          (some owner), .changed owner heap.id job.remarked)

theorem Insertion.tryPage_tries (job : Insertion) (owner : TransactionId) (heap : HeapPage)
    (full : Progress) : job.Tries owner heap full (job.tryPage owner heap full) := by
  unfold tryPage
  split
  · next none => exact .full (HeapPage.freeCount_eq_zero.mp none)
  · next free =>
    rcases HeapPage.insert_of_free free job.tuple with ⟨failure, same, other⟩ | ⟨slot, first, same⟩
    · rw [same]
      exact .refused (by simpa only [HeapPage.freeCount_eq_zero, not_not] using free) failure other
    · rw [same]
      exact .put slot first

namespace Pool

variable {start : Disk} {pool later last before : Pool} {page other : PageId} {owner : TransactionId}
  {file holder : HeapFile} {disk : Disk} {number : UInt32}

theorem Fresh.logical_eq (fresh : pool.Fresh start)
    (registered : pool.tables[page.table]? = some file) :
    pool.logical file page = file.listed (pool.shown page) := by
  unfold logical heap?
  cases present : pool.cache.frames[page]? with
  | some resident =>
    rw [fresh.shown_cached present]
    rfl
  | none =>
    rw [shown_absent pool present, Pool.readPage_eq pool registered]
    exact file.stored_eq pool.disk page

theorem Fresh.logical_congr (fresh : pool.Fresh start) (fresh' : later.Fresh start)
    (tables : later.tables = pool.tables) (registered : pool.tables[page.table]? = some file)
    (same : later.shown page = pool.shown page) : later.logical file page = pool.logical file page := by
  rw [fresh.logical_eq registered, fresh'.logical_eq (tables ▸ registered), same]

theorem marks_iff : pool.Marks owner page ↔
    ∃ heap, pool.changed? page = some heap ∧ heap.dirtiedBy = some owner := by
  simp only [Marks, changed?_eq_some]
  constructor
  · rintro ⟨resident, present, mark⟩
    exact ⟨_, ⟨resident, present, rfl, by simp [HeapPage.isDirty, mark]⟩, mark⟩
  · rintro ⟨heap, ⟨resident, present, rfl, _⟩, mark⟩
    exact ⟨resident, present, mark⟩

def Full (pool : Pool) (file : HeapFile) (page : PageId) : Prop :=
  ∃ slots, pool.logical file page = .ok slots ∧ none ∉ slots

def FilledTo (pool : Pool) (file : HeapFile) (number : UInt32) : Prop :=
  ∀ earlier < number, pool.Full file ⟨file.table, earlier⟩

/-- A file is as long as it was, or, as all of its pages are full, a blank one was put behind them. -/
inductive Grown (pool : Pool) (file : HeapFile) : Disk → Prop
  | same : Grown pool file pool.disk
  | longer (filled : pool.FilledTo file (file.numPages pool.disk)) (disk : Disk)
      (lengthens : file.Lengthens pool.disk disk) : Grown pool file disk

/-- A tuple was put where it belongs, and nothing else was changed. -/
structure Places (before later : Pool) (owner : TransactionId) (file : HeapFile) (tuple : Tuple)
    (page : PageId) (slot : Nat) : Prop where
  tables : later.tables = before.tables
  table : page.table = file.table
  filled : before.FilledTo file page.number
  put : ∃ slots resident, before.logical file page = .ok slots ∧
    slots.findIdx? Option.isNone = some slot ∧ later.cache.frames[page]? = some resident ∧
    resident.frame.page.slots = slots.set slot (some (tuple.setRecordId (some ⟨page, slot⟩))) ∧
    resident.frame.page.dirtiedBy = some owner
  locked : ∀ number ≤ page.number,
    later.locks.table.Holds owner ⟨file.table, number⟩ .exclusive
  elsewhere : ∀ (other : PageId) (holder : HeapFile), before.tables[other.table]? = some holder →
    other ≠ page → later.logical holder other = before.logical holder other
  disk : page.number < file.numPages before.disk ∧ later.disk = before.disk ∨
    page = file.lastPage before.disk ∧ slot = 0 ∧ file.Lengthens before.disk later.disk

theorem Places.intact {tuple : Tuple} {slot : Nat}
    (places : before.Places pool owner file tuple page slot) (intact : pool.Intact later)
    (fresh : pool.Fresh start) (fresh' : later.Fresh start) :
    before.Places later owner file tuple page slot where
  tables := intact.tables.trans places.tables
  table := places.table
  filled := places.filled
  put := by
    obtain ⟨slots, resident, shown, first, present, put, mark⟩ := places.put
    have changed := intact.changed page
    rw [changed?_of_cached present, if_pos (by simp [HeapPage.isDirty, mark])] at changed
    obtain ⟨found, here, same, _⟩ := changed?_eq_some.mp changed
    exact ⟨slots, found, shown, first, here, same ▸ put, same ▸ mark⟩
  locked number below := intact.locks.holds (places.locked number below)
  elsewhere other holder registered apart :=
    (fresh.logical_congr fresh' intact.tables (places.tables ▸ registered) (intact.shown other)).trans
      (places.elsewhere other holder registered apart)
  disk := by
    rw [intact.disk]
    exact places.disk

section Grown

variable (fresh : before.Fresh start) (registered : before.tables[file.table]? = some file)
include fresh registered

theorem Fresh.grown (grown : before.Grown file disk) : ({ before with disk } : Pool).Fresh start := by
  cases grown with
  | same => exact fresh
  | longer filled disk lengthens => exact fresh.appends registered lengthens.appends

theorem Grown.logical_eq (grown : before.Grown file disk)
    (found : before.tables[page.table]? = some holder) :
    ({ before with disk } : Pool).logical holder page = before.logical holder page := by
  cases grown with
  | same => rfl
  | longer filled disk lengthens =>
    have proper := (fresh.sound.proper _ _ registered).1
    have stored := fresh.sound.stored_eq registered lengthens.appends.elsewhere found fun same =>
      lengthens.appends.stored proper same
    simp only [logical, heap?, stored]

end Grown

end Pool
end PagedTables
