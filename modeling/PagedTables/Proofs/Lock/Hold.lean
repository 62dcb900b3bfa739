import PagedTables.Lock.Manager
import PagedTables.Proofs.Lock.Attempt

/-! Who keeps what. A lock that was granted stays with its transaction through every request of
anybody, and until that transaction gives its locks back. -/

namespace PagedTables

namespace LockTable

/-- A transaction has a page's lock in this mode or a stronger one. -/
def Holds (table : LockTable) (owner : TransactionId) (page : PageId) (mode : LockMode) : Prop :=
  ∃ lock, table.locks[page]? = some lock ∧ owner ∈ lock.holders ∧
    (mode = .exclusive → lock.mode = .exclusive)

def Indexed (table : LockTable) : Prop :=
  ∀ (owner : TransactionId) (page : PageId),
    page ∈ table.heldBy owner ↔ owner ∈ table.holdersOf page

variable {table : LockTable} {owner other : TransactionId} {page : PageId} {mode : LockMode}

instance (table : LockTable) (owner : TransactionId) (page : PageId) (mode : LockMode) :
    Decidable (table.Holds owner page mode) :=
  match found : table.locks[page]? with
  | none => .isFalse fun ⟨_, here, _⟩ => by cases found.symm.trans here
  | some lock =>
    decidable_of_iff (owner ∈ lock.holders ∧ (mode = .exclusive → lock.mode = .exclusive)) <| by
      simp only [Holds, found, Option.some.injEq, exists_eq_left']

theorem Holds.shared (holds : table.Holds owner page mode) : table.Holds owner page .shared := by
  obtain ⟨lock, found, member, _⟩ := holds
  exact ⟨lock, found, member, by simp⟩

theorem Holds.alone (holds : table.Holds owner page .exclusive) (valid : table.Valid)
    (also : table.Holds other page mode) : other = owner := by
  obtain ⟨lock, found, member, exclusive⟩ := holds
  obtain ⟨same, again, second, _⟩ := also
  rw [found, Option.some.injEq] at again
  subst again
  exact (valid page lock found).alone (exclusive rfl) other second owner member

theorem mem_heldBy_iff (indexed : table.Indexed) :
    page ∈ table.heldBy owner ↔ table.Holds owner page .shared := by
  rw [indexed owner page, mem_holdersOf]
  simp [Holds]

theorem indexed_empty : empty.Indexed := by
  intro owner page
  rw [mem_holdersOf]
  simp [heldBy, empty]

theorem mem_heldBy_grant {lock : Lock} {asked : PageId} :
    page ∈ (table.grant asked owner lock).heldBy other ↔
      (page = asked ∧ other = owner) ∨ page ∈ table.heldBy other := by
  unfold heldBy grant
  simp only [Std.ExtTreeMap.getElem?_insert, Std.LawfulEqOrd.compare_eq_iff_eq]
  by_cases same : owner = other
  · subst same
    simp only [↓reduceIte, Option.getD_some, Std.ExtTreeSet.mem_insert,
      Std.LawfulEqOrd.compare_eq_iff_eq, and_true, @eq_comm _ page]
    exact Iff.rfl
  · simp [same, Ne.symm same]

theorem mem_of_request {lock : Lock} {asked : TransactionId}
    (answer : Lock.request table.locks[page]? asked mode = .granted lock ∨
      Lock.request table.locks[page]? asked mode = .joined lock) :
    owner ∈ lock.holders ↔ owner = asked ∨ owner ∈ table.holdersOf page := by
  rw [mem_holdersOf]
  rcases answer with plain | joining
  · rcases Lock.request_granted plain with ⟨free, rfl⟩ | ⟨old, found, same, member, _⟩
    · simp [free, Lock.mem_first]
    · simp only [same, found, Option.some.injEq, exists_eq_left', iff_or_self]
      rintro rfl
      exact member
  · obtain ⟨old, found, _, _, _, rfl⟩ := Lock.request_joined joining
    simp only [found, Option.some.injEq, exists_eq_left', Lock.mem_insert]

theorem mode_of_request {lock : Lock} {asked : TransactionId}
    (answer : Lock.request table.locks[page]? asked mode = .granted lock ∨
      Lock.request table.locks[page]? asked mode = .joined lock) :
    (mode = .exclusive → lock.mode = .exclusive) ∧
      ∀ old, table.locks[page]? = some old → old.mode = .exclusive → lock.mode = .exclusive := by
  rcases answer with plain | joining
  · rcases Lock.request_granted plain with ⟨free, rfl⟩ | ⟨old, found, _, _, raised, _⟩
    · exact ⟨id, fun old found => by simp [free] at found⟩
    · refine ⟨fun asked => (raised (.inr asked)).1, fun present also exclusive => ?_⟩
      rw [found, Option.some.injEq] at also
      subst also
      exact (raised (.inl exclusive)).1
  · obtain ⟨old, found, shared, asked, _, rfl⟩ := Lock.request_joined joining
    refine ⟨fun exclusive => ?_, fun present also exclusive => ?_⟩
    · rw [asked] at exclusive
      cases exclusive
    · rw [found, Option.some.injEq] at also
      subst also
      exact exclusive

structure Extends (table later : LockTable) : Prop where
  valid : table.Valid → later.Valid
  indexed : table.Indexed → later.Indexed
  holds : ∀ {owner page mode}, table.Holds owner page mode → later.Holds owner page mode

theorem Extends.of_same {later : LockTable} (locks : later.locks = table.locks)
    (held : later.held = table.held) : table.Extends later where
  valid valid page lock found := valid page lock (locks ▸ found)
  indexed indexed owner page := by
    have same := indexed owner page
    simpa only [heldBy, holdersOf, locks, held] using same
  holds := by
    rintro owner page mode ⟨lock, found, rest⟩
    exact ⟨lock, locks ▸ found, rest⟩

theorem Extends.trans {later last : LockTable} (h : table.Extends later)
    (h' : later.Extends last) : table.Extends last :=
  ⟨h'.valid ∘ h.valid, h'.indexed ∘ h.indexed, fun holds => h'.holds (h.holds holds)⟩

theorem extends_grant {lock : Lock} {asked : PageId}
    (answer : Lock.request table.locks[asked]? owner mode = .granted lock ∨
      Lock.request table.locks[asked]? owner mode = .joined lock) :
    table.Extends (table.grant asked owner lock) where
  valid valid := valid.grant (valid_of_request answer)
  indexed indexed holder page := by
    rw [mem_heldBy_grant, indexed holder page, mem_holdersOf, mem_holdersOf]
    simp only [getElem?_grant]
    by_cases same : page = asked
    · subst same
      simp only [↓reduceIte, Option.some.injEq, exists_eq_left', mem_of_request answer,
        mem_holdersOf, true_and]
    · simp [same]
  holds := by
    rintro holder page kept ⟨old, found, member, strong⟩
    unfold Holds
    rw [getElem?_grant]
    by_cases same : page = asked
    · subst same
      refine ⟨lock, if_pos rfl, (mem_of_request answer).mpr (.inr ?_), fun exclusive => ?_⟩
      · exact mem_holdersOf.mpr ⟨old, found, member⟩
      · exact (mode_of_request answer).2 old found (strong exclusive)
    · exact ⟨old, (if_neg same).trans found, member, strong⟩

theorem extends_attempt (table : LockTable) (page : PageId) (owner : TransactionId)
    (mode : LockMode) : table.Extends (table.attempt page owner mode).1 := by
  have outcome := table.attempt_outcome page owner mode
  generalize table.attempt page owner mode = result at outcome ⊢
  cases outcome with
  | granted lock answer => exact extends_grant (.inl answer)
  | joined lock answer => exact extends_grant (.inr answer)
  | refused answer free => exact .of_same rfl rfl
  | deadlock answer closed => exact .of_same rfl rfl

theorem holds_attempt (table : LockTable) (page : PageId) (owner : TransactionId) (mode : LockMode)
    (answer : (table.attempt page owner mode).2 = .granted ∨
      (table.attempt page owner mode).2 = .joined) :
    (table.attempt page owner mode).1.Holds owner page mode := by
  have entered : ∀ lock, Lock.request table.locks[page]? owner mode = .granted lock ∨
      Lock.request table.locks[page]? owner mode = .joined lock →
      (table.grant page owner lock).Holds owner page mode := by
    intro lock answer
    refine ⟨lock, ?_, (mem_of_request answer).mpr (.inl rfl), (mode_of_request answer).1⟩
    rw [getElem?_grant, if_pos rfl]
  have outcome := table.attempt_outcome page owner mode
  generalize table.attempt page owner mode = result at outcome answer ⊢
  cases outcome with
  | granted lock granted => exact entered lock (.inl granted)
  | joined lock joined => exact entered lock (.inr joined)
  | refused refused free => simp at answer
  | deadlock refused closed => simp at answer

theorem attempt_of_exclusive (valid : table.Valid) (holds : table.Holds owner page .exclusive) :
    (table.attempt page owner .exclusive).2 = .granted := by
  obtain ⟨lock, found, member, exclusive⟩ := holds
  have sole : lock.isSoleHolder owner = true := by
    refine Lock.isSoleHolder_iff.mpr fun holder => ⟨fun also => ?_, fun same => same ▸ member⟩
    exact (valid page lock found).alone (exclusive rfl) holder also owner member
  simp [attempt, Lock.request, found, exclusive rfl, sole]

theorem Holds.of_without {smaller : LockTable} (holds : table.Holds other page mode)
    (owner : TransactionId) (fewer : smaller.locks[page]? = table.locks[page]? ∨
      other ≠ owner ∧ smaller.locks[page]? = table.locks[page]?.bind (Lock.without owner)) :
    smaller.Holds other page mode := by
  obtain ⟨lock, found, member, strong⟩ := holds
  rcases fewer with same | ⟨apart, less⟩
  · exact ⟨lock, same.trans found, member, strong⟩
  · cases left : lock.without owner with
    | none => exact absurd (Lock.without_eq_none.mp left other member) apart
    | some rest =>
      obtain ⟨mode, members⟩ := Lock.without_eq_some left
      refine ⟨rest, by simp [less, found, left], (members other).mpr ⟨apart, member⟩, ?_⟩
      intro exclusive
      rw [mode, strong exclusive]

theorem Holds.release {place : PageId} (holds : table.Holds other place mode)
    (kept : other = owner → place ≠ page) : (table.release page owner).Holds other place mode := by
  refine holds.of_without owner ?_
  rw [getElem?_release]
  split
  · next same => exact .inr ⟨fun own => kept own same, rfl⟩
  · exact .inl rfl

theorem Holds.releaseAll (holds : table.Holds other page mode) (apart : other ≠ owner) :
    (table.releaseAll owner).Holds other page mode := by
  refine holds.of_without owner ?_
  rw [getElem?_releaseAll]
  split
  · exact .inr ⟨apart, rfl⟩
  · exact .inl rfl

theorem Indexed.releaseAll (indexed : table.Indexed) (owner : TransactionId) :
    (table.releaseAll owner).Indexed := by
  intro holder page
  have mine := indexed owner page
  have theirs := indexed holder page
  have held : page ∈ (table.releaseAll owner).heldBy holder ↔
      holder ≠ owner ∧ page ∈ table.heldBy holder := by
    unfold heldBy LockTable.releaseAll
    simp only [Std.ExtTreeMap.getElem?_erase, Std.LawfulEqOrd.compare_eq_iff_eq]
    by_cases same : owner = holder
    · simp [same]
    · simp [same, Ne.symm same]
  rw [held, theirs, mem_holdersOf, mem_holdersOf, getElem?_releaseAll]
  rw [mem_holdersOf] at mine
  cases found : table.locks[page]? with
  | none => simp
  | some lock =>
    simp only [found, Option.some.injEq, exists_eq_left', Option.bind_some] at mine ⊢
    by_cases listed : page ∈ table.heldBy owner
    · rw [if_pos listed]
      cases left : lock.without owner with
      | none =>
        have all := Lock.without_eq_none.mp left
        simp only [reduceCtorEq, false_and, exists_false, iff_false, not_and]
        exact fun apart member => apart (all holder member)
      | some rest => simp [(Lock.without_eq_some left).2]
    · rw [if_neg listed]
      have absent : owner ∉ lock.holders := fun member => listed (mine.mpr member)
      simp only [Option.some.injEq, exists_eq_left', and_iff_right_iff_imp]
      rintro member rfl
      exact absent member

theorem mem_heldBy_release {place : PageId} :
    place ∈ (table.release page owner).heldBy other ↔
      (other = owner → place ≠ page) ∧ place ∈ table.heldBy other := by
  unfold heldBy release
  by_cases same : other = owner
  · subst same
    have kept : ∀ pages : PageSet, place ∈ pages.erase page ↔ place ≠ page ∧ place ∈ pages := by
      intro pages
      rw [Std.ExtTreeSet.mem_erase, ne_eq, Std.LawfulEqOrd.compare_eq_iff_eq, ← ne_eq, ne_comm]
    cases found : table.held[other]? with
    | none => simp [found]
    | some pages =>
      simp only [Option.getD_some, forall_const, ← kept]
      split
      · next empty =>
        have none := Std.ExtTreeSet.eq_empty_iff_forall_not_mem.mp
          (Std.ExtTreeSet.isEmpty_iff.mp empty)
        simp [none place]
      · simp
  · cases found : table.held[owner]? with
    | none => simp [same]
    | some pages =>
      simp only
      split
      · simp [Std.ExtTreeMap.getElem?_erase, Ne.symm same, same]
      · simp [Std.ExtTreeMap.getElem?_insert, Ne.symm same, same]

theorem Indexed.release (indexed : table.Indexed) (page : PageId) (owner : TransactionId) :
    (table.release page owner).Indexed := by
  intro holder place
  rw [mem_heldBy_release, indexed holder place, mem_holdersOf, mem_holdersOf, getElem?_release]
  by_cases here : place = page
  · subst here
    cases found : table.locks[place]? with
    | none => simp
    | some lock =>
      cases left : lock.without owner with
      | none =>
        have all := Lock.without_eq_none.mp left
        simp only [ne_eq, not_true_eq_false, imp_false, Option.some.injEq, exists_eq_left',
          if_true, Option.bind_some, left, reduceCtorEq, false_and, exists_false, iff_false]
        exact fun both => both.1 (all holder both.2)
      | some rest => simp [left, (Lock.without_eq_some left).2]
  · simp [here]

end LockTable

namespace LockManager

variable {manager : LockManager} {owner : TransactionId} {page : PageId} {mode : LockMode}

theorem extends_acquire (manager : LockManager) (page : PageId) (owner : TransactionId)
    (mode : LockMode) : manager.table.Extends (manager.acquire page owner mode).1.table := by
  have further := manager.table.extends_attempt page owner mode
  simp only [acquire, withdraw]
  generalize manager.table.attempt page owner mode = result at further ⊢
  obtain ⟨table, decision⟩ := result
  cases decision <;> exact further

theorem extends_expire (manager : LockManager) (page : PageId) (owner : TransactionId)
    (mode : LockMode) : manager.table.Extends (manager.expire page owner mode).1.table := by
  have further := manager.table.extends_attempt page owner mode
  simp only [expire, withdraw]
  generalize manager.table.attempt page owner mode = result at further ⊢
  obtain ⟨table, decision⟩ := result
  cases decision with
  | refused => exact further.trans (.of_same rfl rfl)
  | granted => exact further
  | joined => exact further
  | deadlock => exact further

theorem holds_acquire (answer : (manager.acquire page owner mode).2 = .granted) :
    (manager.acquire page owner mode).1.table.Holds owner page mode := by
  have entered := fun answer => manager.table.holds_attempt page owner mode answer
  simp only [acquire, withdraw] at answer ⊢
  generalize manager.table.attempt page owner mode = result at entered answer ⊢
  obtain ⟨table, decision⟩ := result
  cases decision with
  | granted => exact entered (.inl rfl)
  | joined => exact entered (.inr rfl)
  | refused => cases answer
  | deadlock => cases answer

theorem holds_expire (answer : (manager.expire page owner mode).2 = .granted) :
    (manager.expire page owner mode).1.table.Holds owner page mode := by
  have entered := fun answer => manager.table.holds_attempt page owner mode answer
  simp only [expire, withdraw] at answer ⊢
  generalize manager.table.attempt page owner mode = result at entered answer ⊢
  obtain ⟨table, decision⟩ := result
  cases decision with
  | granted => exact entered (.inl rfl)
  | joined => exact entered (.inr rfl)
  | refused => cases answer
  | deadlock => cases answer

theorem acquire_of_exclusive (valid : manager.table.Valid)
    (holds : manager.table.Holds owner page .exclusive) :
    (manager.acquire page owner .exclusive).2 = .granted := by
  have granted := LockTable.attempt_of_exclusive valid holds
  simp only [acquire, withdraw]
  generalize manager.table.attempt page owner .exclusive = result at granted ⊢
  obtain ⟨table, decision⟩ := result
  obtain rfl : decision = .granted := granted
  rfl

end LockManager
end PagedTables
