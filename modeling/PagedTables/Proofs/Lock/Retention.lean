import PagedTables.Proofs.Lock.Hold
import PagedTables.Proofs.Lock.Quiescence

/-! What is on record after any turns of anybody. The two ways to list the locks agree, nobody is
listed for nothing, and a lock is taken from a transaction only by giving it back. -/

namespace PagedTables

namespace LockTable

variable {table : LockTable} {owner : TransactionId} {page : PageId} {mode : LockMode}

def Tidy (table : LockTable) : Prop :=
  ∀ (owner : TransactionId) (pages : PageSet), table.held[owner]? = some pages → pages ≠ ∅

structure Consistent (table : LockTable) : Prop where
  valid : table.Valid
  indexed : table.Indexed
  tidy : table.Tidy

theorem consistent_empty : empty.Consistent where
  valid := valid_empty
  indexed := indexed_empty
  tidy owner pages found := by simp [empty] at found

theorem Tidy.grant (tidy : table.Tidy) {lock : Lock} : (table.grant page owner lock).Tidy := by
  intro other pages found
  rw [LockTable.grant, Std.ExtTreeMap.getElem?_insert] at found
  split at found
  · cases found
    exact Std.ExtTreeSet.insert_ne_empty
  · exact tidy other pages found

theorem Tidy.attempt (tidy : table.Tidy) (page : PageId) (owner : TransactionId)
    (mode : LockMode) : (table.attempt page owner mode).1.Tidy := by
  have outcome := table.attempt_outcome page owner mode
  generalize table.attempt page owner mode = result at outcome ⊢
  cases outcome with
  | granted lock answer => exact tidy.grant
  | joined lock answer => exact tidy.grant
  | refused answer free => exact tidy
  | deadlock answer closed => exact tidy

theorem Tidy.release (tidy : table.Tidy) (page : PageId) (owner : TransactionId) :
    (table.release page owner).Tidy := by
  intro other pages found
  unfold LockTable.release at found
  cases listed : table.held[owner]? with
  | none => exact tidy other pages (by simpa only [listed] using found)
  | some all =>
    simp only [listed] at found
    split at found
    · rw [Std.ExtTreeMap.getElem?_erase] at found
      split at found
      · cases found
      · exact tidy other pages found
    · next left =>
      rw [Std.ExtTreeMap.getElem?_insert] at found
      split at found
      · cases found
        rwa [Std.ExtTreeSet.isEmpty_iff] at left
      · exact tidy other pages found

theorem Tidy.releaseAll (tidy : table.Tidy) (owner : TransactionId) :
    (table.releaseAll owner).Tidy := by
  intro other pages found
  rw [LockTable.releaseAll, Std.ExtTreeMap.getElem?_erase] at found
  split at found
  · cases found
  · exact tidy other pages found

theorem Consistent.attempt (consistent : table.Consistent) (page : PageId) (owner : TransactionId)
    (mode : LockMode) : (table.attempt page owner mode).1.Consistent where
  valid := consistent.valid.attempt page owner mode
  indexed := (table.extends_attempt page owner mode).indexed consistent.indexed
  tidy := consistent.tidy.attempt page owner mode

theorem Consistent.clearWaiting (consistent : table.Consistent) (owner : TransactionId) :
    (table.clearWaiting owner).Consistent :=
  ⟨consistent.valid, consistent.indexed, consistent.tidy⟩

theorem Consistent.release (consistent : table.Consistent) (page : PageId)
    (owner : TransactionId) : (table.release page owner).Consistent where
  valid := consistent.valid.release page owner
  indexed := consistent.indexed.release page owner
  tidy := consistent.tidy.release page owner

theorem Consistent.releaseAll (consistent : table.Consistent) (owner : TransactionId) :
    (table.releaseAll owner).Consistent where
  valid := consistent.valid.releaseAll owner
  indexed := consistent.indexed.releaseAll owner
  tidy := consistent.tidy.releaseAll owner

end LockTable

namespace Traffic

variable {traffic : Traffic} {owner : TransactionId} {page : PageId} {mode : LockMode}

theorem table_answer (traffic : Traffic) (request : LockRequest)
    {refused : LockManager → LockRequest → LockManager}
    (kind : refused = .sleep ∨ refused = .giveUp ∨ refused = fun manager _ => manager) :
    let tried := (traffic.manager.table.attempt request.page request.owner request.mode).1
    (traffic.answer request refused).manager.table = tried ∨
      (traffic.answer request refused).manager.table = tried.clearWaiting request.owner := by
  simp only [Traffic.answer, LockManager.look, LockManager.withdraw]
  generalize traffic.manager.table.attempt request.page request.owner request.mode = result
  obtain ⟨table, decision⟩ := result
  cases decision with
  | granted => exact .inl rfl
  | joined => exact .inl rfl
  | deadlock => exact .inl rfl
  | refused =>
    rcases kind with rfl | rfl | rfl
    · exact .inl rfl
    · exact .inr rfl
    · exact .inl rfl

inductive Leaves (table : LockTable) : Turn → LockTable → Prop
  | tried (turn : Turn) (request : LockRequest) :
      Leaves table turn (table.attempt request.page request.owner request.mode).1
  | gaveUp (turn : Turn) (request : LockRequest) :
      Leaves table turn
        ((table.attempt request.page request.owner request.mode).1.clearWaiting request.owner)
  | released (page : PageId) (owner : TransactionId) :
      Leaves table (.release page owner) (table.release page owner)
  | releasedAll (owner : TransactionId) :
      Leaves table (.releaseAll owner) (table.releaseAll owner)
  | woken : Leaves table .notify table

theorem after_leaves (traffic : Traffic) (turn : Turn) :
    Leaves traffic.manager.table turn (traffic.after turn).manager.table := by
  have answered : ∀ (request : LockRequest) (refused : LockManager → LockRequest → LockManager),
      (refused = .sleep ∨ refused = .giveUp ∨ refused = fun manager _ => manager) →
      Leaves traffic.manager.table turn (traffic.answer request refused).manager.table := by
    intro request refused kind
    rcases table_answer traffic request kind with same | same
    · exact same ▸ .tried turn request
    · exact same ▸ .gaveUp turn request
  cases turn with
  | ask request => exact answered request _ (.inl rfl)
  | retry request => exact answered request _ (.inl rfl)
  | expire request => exact answered request _ (.inr (.inl rfl))
  | tryOnce request => exact answered request _ (.inr (.inr rfl))
  | release page owner => exact .released page owner
  | releaseAll owner => exact .releasedAll owner
  | notify => exact .woken

theorem consistent_after (consistent : traffic.manager.table.Consistent) (turn : Turn) :
    (traffic.after turn).manager.table.Consistent := by
  have left := traffic.after_leaves turn
  generalize (traffic.after turn).manager.table = later at left ⊢
  cases left with
  | tried _ request => exact consistent.attempt _ _ _
  | gaveUp _ request => exact (consistent.attempt _ _ _).clearWaiting _
  | released page owner => exact consistent.release page owner
  | releasedAll owner => exact consistent.releaseAll owner
  | woken => exact consistent

theorem holds_after (holds : traffic.manager.table.Holds owner page mode) {turn : Turn}
    (kept : turn ≠ .release page owner) (keptAll : turn ≠ .releaseAll owner) :
    (traffic.after turn).manager.table.Holds owner page mode := by
  have left := traffic.after_leaves turn
  generalize (traffic.after turn).manager.table = later at left ⊢
  cases left with
  | tried _ request => exact (LockTable.extends_attempt _ _ _ _).holds holds
  | gaveUp _ request => exact (LockTable.extends_attempt _ _ _ _).holds holds
  | released place other =>
    refine holds.release fun same => ?_
    rintro rfl
    exact kept (same ▸ rfl)
  | releasedAll other => exact holds.releaseAll fun same => keptAll (same ▸ rfl)
  | woken => exact holds

theorem consistent_run (turns : List Turn) :
    (turns.foldl after start).manager.table.Consistent := by
  have run : ∀ traffic : Traffic, traffic.manager.table.Consistent →
      (turns.foldl after traffic).manager.table.Consistent := by
    induction turns with
    | nil => exact fun traffic consistent => consistent
    | cons turn turns ih => exact fun traffic consistent => ih _ (consistent_after consistent turn)
  exact run start LockTable.consistent_empty

theorem holds_run (turns : List Turn) (holds : traffic.manager.table.Holds owner page mode)
    (kept : ∀ turn ∈ turns, turn ≠ .release page owner ∧ turn ≠ .releaseAll owner) :
    (turns.foldl after traffic).manager.table.Holds owner page mode := by
  induction turns generalizing traffic with
  | nil => exact holds
  | cons turn turns ih =>
    obtain ⟨first, rest⟩ := List.forall_mem_cons.mp kept
    exact ih (holds_after holds first.1 first.2) rest

/-- The lock table after any turns of any transactions, allowed to them or not, and what becomes of
a lock until its transaction gives it back. -/
theorem locks_kept (turns : List Turn) :
    let table := (turns.foldl after start).manager.table
    (∀ (page : PageId) (lock : Lock), table.locks[page]? = some lock →
      (∃ owner, owner ∈ lock.holders) ∧ (lock.mode = .exclusive → lock.holders.size = 1)) ∧
    (∀ owner page, page ∈ table.heldBy owner ↔ owner ∈ table.holdersOf page) ∧
    (∀ (owner : TransactionId) (pages : PageSet), table.held[owner]? = some pages → pages ≠ ∅) ∧
    ∀ owner page mode, table.Holds owner page mode →
      ∀ more : List Turn, (∀ turn ∈ more, turn ≠ .release page owner ∧ turn ≠ .releaseAll owner) →
        ((turns ++ more).foldl after start).manager.table.Holds owner page mode := by
  intro table
  obtain ⟨valid, indexed, tidy⟩ := consistent_run turns
  refine ⟨fun page lock found => ?_, indexed, tidy, fun owner page mode holds more kept => ?_⟩
  · obtain ⟨⟨owner, member⟩, alone⟩ := valid page lock found
    refine ⟨⟨owner, member⟩, fun exclusive => ?_⟩
    have sole : lock.isSoleHolder owner = true := Lock.isSoleHolder_iff.mpr fun holder =>
      ⟨fun also => alone exclusive holder also owner member, fun same => same ▸ member⟩
    exact (by simpa [Lock.isSoleHolder] using sole : _ ∧ _).1
  · rw [List.foldl_append]
    exact holds_run more holds kept

/-- The writer that waits keeps the page it has, whoever else asks for it or gives locks back. -/
theorem locks_kept_lateReader :
    let more : List Turn := [.releaseAll ⟨2⟩, .notify, .tryOnce ⟨⟨⟨0⟩, 1⟩, ⟨4⟩, .shared⟩]
    ((lateReader ++ more).foldl after start).manager.table.Holds ⟨1⟩ ⟨⟨0⟩, 1⟩ .exclusive :=
  (locks_kept lateReader).2.2.2 ⟨1⟩ ⟨⟨0⟩, 1⟩ .exclusive (by decide +kernel) _ (by decide)

end Traffic
end PagedTables
