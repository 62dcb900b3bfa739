import PagedTables.Proofs.Pool.Flush
import PagedTables.Proofs.Pool.Steps

/-! Table ids are given out in order, and one is used up whenever a table is asked for. As long as no
more tables were asked for than there are ids, the next one is free. -/

namespace PagedTables

namespace Pool

variable {pool later : Pool} {count : Nat}

def HasTableId (pool : Pool) : Prop := pool.tables[(⟨pool.nextTable⟩ : TableId)]? = none

structure Numbered (pool : Pool) (count : Nat) : Prop where
  next : pool.nextTable = .ofNat count
  below : ∀ (table : TableId) (file : HeapFile), pool.tables[table]? = some file →
    table.raw.toNat < count

theorem Numbered.hasTableId (numbered : pool.Numbered count) (few : count < 2 ^ 32) :
    pool.HasTableId := by
  cases taken : pool.tables[(⟨pool.nextTable⟩ : TableId)]? with
  | none => exact taken
  | some file =>
    have below := numbered.below _ file taken
    rw [numbered.next, UInt32.toNat_ofNat_of_lt' few] at below
    exact absurd below (Nat.lt_irrefl count)

theorem Numbered.register (numbered : pool.Numbered count) (made : Except Failure HeapFile) :
    (pool.register made).1.Numbered (count + 1) := by
  have next : pool.nextTable + 1 = .ofNat (count + 1) := by
    rw [numbered.next, UInt32.ofNat_add]
    rfl
  have below : ∀ (table : TableId) (file : HeapFile), pool.tables[table]? = some file →
      table.raw.toNat < count + 1 :=
    fun table file found => Nat.lt_succ_of_lt (numbered.below table file found)
  cases made with
  | error failure => exact ⟨next, below⟩
  | ok made =>
    refine ⟨next, fun table file found => ?_⟩
    have found : (pool.tables.insert ⟨pool.nextTable⟩ made)[table]? = some file := found
    rw [Std.ExtTreeMap.getElem?_insert] at found
    split at found
    · next same =>
      rw [← Std.LawfulEqOrd.eq_of_compare same, numbered.next, UInt32.toNat_ofNat']
      exact Nat.lt_succ_of_le (Nat.mod_le _ _)
    · exact below table file found

structure SameTables (pool later : Pool) : Prop where
  tables : later.tables = pool.tables
  nextTable : later.nextTable = pool.nextTable

theorem SameTables.trans {last : Pool} (same : pool.SameTables later)
    (same' : later.SameTables last) : pool.SameTables last :=
  ⟨same'.tables.trans same.tables, same'.nextTable.trans same.nextTable⟩

theorem Numbered.same (numbered : pool.Numbered count) (same : pool.SameTables later) :
    later.Numbered count :=
  ⟨same.nextTable.trans numbered.next,
    fun table file found => numbered.below table file (same.tables ▸ found)⟩

theorem sameTables_flushPage (pool : Pool) (page : PageId) :
    pool.SameTables (pool.flushPage page).1 := by
  have flushes := pool.flushPage_flushes page
  generalize pool.flushPage page = result at flushes ⊢
  cases flushes <;> exact ⟨rfl, rfl⟩

theorem sameTables_discardPage (pool : Pool) (page : PageId) :
    pool.SameTables (pool.discardPage page) := by
  have discards := pool.discardPage_discards page
  generalize pool.discardPage page = later at discards ⊢
  cases discards <;> exact ⟨rfl, rfl⟩

theorem sameTables_drop (pool : Pool) (guard : Guard) : pool.SameTables (pool.drop guard).1 := by
  obtain ⟨cache, same, _⟩ := pool.visits_drop guard
  rw [same]
  exact ⟨rfl, rfl⟩

theorem Serves.sameTables {page : PageId} (serves : Serves page pool later) :
    pool.SameTables later :=
  ⟨serves.tables, serves.nextTable⟩

end Pool

theorem Task.StepsTo.sameTables {pool : Pool} {task : Task} {result : Pool × Progress}
    (steps : StepsTo pool task result) : pool.SameTables result.1 := by
  cases steps with
  | pinned access phase later serves size resident present => exact serves.sameTables
  | homeless access phase later serves size finish stops => exact serves.sameTables
  | granted | refused | stopped | looked | guarded | used | appended | unextended | idled =>
    exact ⟨rfl, rfl⟩

end PagedTables
