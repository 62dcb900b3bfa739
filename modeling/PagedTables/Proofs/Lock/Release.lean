import PagedTables.Proofs.Lock.Hold
import PagedTables.Proofs.Lock.WaitGraph

/-! What is left of a transaction that has given all its locks back: nothing. To the others it is as if
it had never been there. -/

namespace PagedTables

theorem WaitGraph.remove_remove (graph : WaitGraph) (transaction : TransactionId) :
    (graph.remove transaction).remove transaction = graph.remove transaction := by
  have twice : ∀ targets : TransactionSet,
      (targets.erase transaction).erase transaction = targets.erase transaction := fun targets => by
    refine Std.ExtTreeSet.ext_mem fun other => ?_
    simp only [Std.ExtTreeSet.mem_erase]
    exact ⟨And.right, fun inside => ⟨inside.1, inside⟩⟩
  refine congrArg WaitGraph.mk (Std.ExtTreeMap.ext_getElem? fun waiter => ?_)
  simp only [remove, Std.ExtTreeMap.getElem?_filterMap', Std.ExtTreeMap.getElem?_erase]
  split
  · rfl
  · cases graph.edges[waiter]? with
    | none => rfl
    | some targets =>
      simp only [Option.bind_some]
      split
      · rfl
      · next some =>
        rw [Option.bind_some, twice, if_neg some]

namespace LockTable

variable {table : LockTable} {owner other : TransactionId} {page : PageId} {mode : LockMode}

theorem heldBy_releaseAll (table : LockTable) (owner other : TransactionId) :
    (table.releaseAll owner).heldBy other = if other = owner then ∅ else table.heldBy other := by
  unfold heldBy releaseAll
  simp only [Std.ExtTreeMap.getElem?_erase, Std.LawfulEqOrd.compare_eq_iff_eq, @eq_comm _ owner]
  split <;> rfl

theorem not_holds_releaseAll (indexed : table.Indexed) (owner : TransactionId) (page : PageId)
    (mode : LockMode) : ¬(table.releaseAll owner).Holds owner page mode := by
  intro holds
  have listed := (mem_heldBy_iff (indexed.releaseAll owner)).mpr holds.shared
  rw [heldBy_releaseAll, if_pos rfl] at listed
  exact Std.ExtTreeSet.not_mem_empty listed

theorem holds_releaseAll_iff (apart : other ≠ owner) :
    (table.releaseAll owner).Holds other page mode ↔ table.Holds other page mode := by
  refine ⟨fun holds => ?_, fun holds => holds.releaseAll apart⟩
  obtain ⟨lock, found, member, strong⟩ := holds
  rw [getElem?_releaseAll] at found
  split at found
  · obtain ⟨whole, present, left⟩ := Option.bind_eq_some_iff.mp found
    obtain ⟨mode, members⟩ := Lock.without_eq_some left
    exact ⟨whole, present, ((members other).mp member).2, fun exclusive => mode ▸ strong exclusive⟩
  · exact ⟨lock, found, member, strong⟩

theorem releaseAll_releaseAll (table : LockTable) (owner : TransactionId) :
    (table.releaseAll owner).releaseAll owner = table.releaseAll owner := by
  have none : ((table.releaseAll owner).heldBy owner).toList = [] := by
    rw [heldBy_releaseAll, if_pos rfl]
    rfl
  have held : (table.held.erase owner).erase owner = table.held.erase owner := by
    refine Std.ExtTreeMap.ext_getElem? fun other => ?_
    simp only [Std.ExtTreeMap.getElem?_erase]
    split <;> rfl
  have waits := table.waits.remove_remove owner
  rw [releaseAll, none]
  simp only [List.foldl_nil]
  simp only [releaseAll, held, waits]

end LockTable

theorem LockManager.releaseAll_releaseAll (manager : LockManager) (owner : TransactionId) :
    (manager.releaseAll owner).releaseAll owner = manager.releaseAll owner := by
  have table := manager.table.releaseAll_releaseAll owner
  simp only [releaseAll, wake, table, List.append_nil]

end PagedTables
