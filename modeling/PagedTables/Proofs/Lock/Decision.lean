import PagedTables.Proofs.Lock.Retention

/-! What comes of one attempt to lock a page: when it is granted, when it is a deadlock, and what it
changes in the lock table and in the wait graph. -/

namespace PagedTables
open Relation

def LockMode.stronger : LockMode → LockMode → LockMode
  | .shared, .shared => .shared
  | _, _ => .exclusive

def Decision.answer : Decision → LockAnswer
  | .granted | .joined => .granted
  | .refused => .waiting
  | .deadlock => .deadlock

namespace WaitGraph

variable {graph later : WaitGraph} {owner waiter : TransactionId}

/-- A later graph in which one transaction waits for `targets` and all others for whom they did. -/
structure Redirects (graph : WaitGraph) (owner : TransactionId) (targets : TransactionSet)
    (later : WaitGraph) : Prop where
  own : later.targets owner = targets
  others : ∀ waiter, waiter ≠ owner → later.edges[waiter]? = graph.edges[waiter]?

theorem redirects_clearWaiting (graph : WaitGraph) (owner : TransactionId) :
    graph.Redirects owner ∅ (graph.clearWaiting owner) where
  own := by simp [targets, clearWaiting]
  others waiter apart := by simp [clearWaiting, Std.ExtTreeMap.getElem?_erase, Ne.symm apart]

theorem redirects_setWaiting (graph : WaitGraph) (owner : TransactionId)
    (holders : List TransactionId) :
    graph.Redirects owner ((Std.ExtTreeSet.ofList holders).erase owner)
      (graph.setWaiting owner holders) where
  own := by
    refine Std.ExtTreeSet.ext_mem fun holder => ?_
    have waits : holder ∈ (graph.setWaiting owner holders).targets owner ↔ _ := waits_setWaiting
    rw [waits, if_pos rfl, Lock.mem_erase, Std.ExtTreeSet.mem_ofList, List.contains_iff_mem,
      and_comm]
  others waiter apart := by
    simp only [setWaiting]
    split
    · simp [Std.ExtTreeMap.getElem?_erase, Ne.symm apart]
    · simp [Std.ExtTreeMap.getElem?_insert, Ne.symm apart]

theorem Redirects.clearWaiting {targets : TransactionSet}
    (redirects : graph.Redirects owner targets later) :
    graph.Redirects owner ∅ (later.clearWaiting owner) where
  own := (redirects_clearWaiting later owner).own
  others waiter apart :=
    ((redirects_clearWaiting later owner).others waiter apart).trans (redirects.others waiter apart)

theorem path_erase_goal {edges : Edges} {start goal : TransactionId} :
    ReflTransGen (Edge (edges.erase goal)) start goal ↔ ReflTransGen (Edge edges) start goal := by
  refine ⟨path_of_path_erase, fun path => ?_⟩
  induction path using ReflTransGen.head_induction_on with
  | refl => exact .refl
  | @head start next edge _ ih =>
    by_cases arrived : start = goal
    · exact arrived ▸ .refl
    · exact .head (edge_erase.mpr ⟨arrived, edge⟩) ih

theorem isOnCycle_setWaiting_iff {holders : List TransactionId} :
    (graph.setWaiting owner holders).isOnCycle owner = true ↔
      ∃ holder ∈ holders, holder ≠ owner ∧ ReflTransGen graph.Waits holder owner := by
  have paths : ∀ start, ReflTransGen (graph.setWaiting owner holders).Waits start owner ↔
      ReflTransGen graph.Waits start owner := by
    intro start
    have same : Edge ((graph.setWaiting owner holders).edges.erase owner) =
        Edge (graph.edges.erase owner) := by
      funext waiter holder
      rw [eq_iff_iff, edge_erase, edge_erase, ← waits_iff_edge, ← waits_iff_edge, waits_setWaiting]
      exact and_congr_right fun apart => by rw [if_neg apart]
    rw [waits_eq_edge, waits_eq_edge, ← path_erase_goal, same, path_erase_goal]
  rw [isOnCycle_iff, TransGen.head'_iff]
  simp only [waits_setWaiting, if_pos, paths, and_assoc]

end WaitGraph

namespace LockTable

variable {table : LockTable} {owner : TransactionId} {page : PageId} {mode : LockMode}

/-- Nobody is in the way of a request: the page is unlocked, or its only holder is the one that
asks, or both lock it in shared mode. -/
def Admits (table : LockTable) (page : PageId) (owner : TransactionId) (mode : LockMode) : Prop :=
  match table.locks[page]? with
  | none => True
  | some lock =>
    (∀ holder, holder ∈ lock.holders ↔ holder = owner) ∨ (lock.mode = .shared ∧ mode = .shared)

structure Grants (table : LockTable) (page : PageId) (owner : TransactionId) (mode : LockMode)
    (later : LockTable) : Prop where
  holders : ∀ holder, holder ∈ later.holdersOf page ↔
    holder = owner ∨ holder ∈ table.holdersOf page
  mode : later.mode? page = some ((table.mode? page).elim mode (·.stronger mode))
  held : ∀ place, place ∈ later.heldBy owner ↔ place = page ∨ place ∈ table.heldBy owner
  elsewhere : ∀ place, place ≠ page → later.locks[place]? = table.locks[place]?
  others : ∀ other, other ≠ owner → later.held[other]? = table.held[other]?
  waits : table.waits.Redirects owner ∅ later.waits

/-- Somebody who is in the way waits, through any number of others, for the one that asks. -/
def Closes (table : LockTable) (page : PageId) (owner : TransactionId) : Prop :=
  ∃ holder ∈ table.holdersOf page, holder ≠ owner ∧ ReflTransGen table.waits.Waits holder owner

/-- What every answer to a request for a page means, and what table it leaves. -/
structure Answers (table : LockTable) (page : PageId) (owner : TransactionId) (mode : LockMode)
    (later : LockTable) (answer : LockAnswer) : Prop where
  granted : answer = .granted ↔ table.Admits page owner mode
  deadlock : answer = .deadlock ↔ ¬table.Admits page owner mode ∧ table.Closes page owner
  grants : answer = .granted → table.Grants page owner mode later
  kept : answer ≠ .granted → later.locks = table.locks ∧ later.held = table.held
  waiting : answer = .waiting →
    table.waits.Redirects owner ((table.holdersOf page).erase owner) later.waits
  ended : answer = .deadlock ∨ answer = .timedOut → table.waits.Redirects owner ∅ later.waits

theorem admits_iff_request :
    table.Admits page owner mode ↔ Lock.request table.locks[page]? owner mode ≠ .refused := by
  rw [Ne, Lock.request_eq_refused_iff, Admits]
  cases table.locks[page]? with
  | none => simp
  | some lock =>
    simp only [← Lock.isSoleHolder_iff, Option.some.injEq, exists_eq_left']
    cases lock.isSoleHolder owner <;> cases lock.mode <;> cases mode <;> simp

instance (table : LockTable) (page : PageId) (owner : TransactionId) (mode : LockMode) :
    Decidable (table.Admits page owner mode) :=
  decidable_of_iff _ admits_iff_request.symm

theorem mode_grant {lock : Lock}
    (answer : Lock.request table.locks[page]? owner mode = .granted lock ∨
      Lock.request table.locks[page]? owner mode = .joined lock) :
    lock.mode = (table.mode? page).elim mode (·.stronger mode) := by
  unfold mode?
  rcases answer with plain | joining
  · rcases Lock.request_granted plain with ⟨free, rfl⟩ | ⟨old, found, _, _, raised, kept⟩
    · simp [free, Lock.first]
    · simp only [found, Option.map_some, Option.elim_some]
      cases held : old.mode <;> cases mode <;> simp_all [LockMode.stronger]
  · obtain ⟨old, found, shared, rfl, _, rfl⟩ := Lock.request_joined joining
    simp [found, shared, LockMode.stronger]

theorem grants_grant {lock : Lock}
    (answer : Lock.request table.locks[page]? owner mode = .granted lock ∨
      Lock.request table.locks[page]? owner mode = .joined lock) :
    table.Grants page owner mode (table.grant page owner lock) where
  holders holder := by
    rw [← mem_of_request answer, mem_holdersOf]
    simp [getElem?_grant]
  mode := by
    rw [← mode_grant answer, mode?, getElem?_grant, if_pos rfl]
    rfl
  held place := by simp [mem_heldBy_grant]
  elsewhere place apart := by rw [getElem?_grant, if_neg apart]
  others other apart := by simp [grant, Std.ExtTreeMap.getElem?_insert, Ne.symm apart]
  waits := table.waits.redirects_clearWaiting owner

theorem answers_grant {lock : Lock}
    (answer : Lock.request table.locks[page]? owner mode = .granted lock ∨
      Lock.request table.locks[page]? owner mode = .joined lock) :
    table.Answers page owner mode (table.grant page owner lock) .granted := by
  have admits : table.Admits page owner mode := by
    rw [admits_iff_request]
    rcases answer with plain | joining
    · simp [plain]
    · simp [joining]
  refine ⟨by simp [admits], by simp [admits], fun _ => grants_grant answer, ?_, ?_, ?_⟩ <;> simp

theorem answers_attempt (table : LockTable) (page : PageId) (owner : TransactionId)
    (mode : LockMode) :
    table.Answers page owner mode (table.attempt page owner mode).1
      (table.attempt page owner mode).2.answer := by
  have closes : (table.waits.setWaiting owner (table.holdersOf page).toList).isOnCycle owner = true ↔
      table.Closes page owner := by
    rw [WaitGraph.isOnCycle_setWaiting_iff]
    simp only [Std.ExtTreeSet.mem_toList, Closes]
  have redirects := table.waits.redirects_setWaiting owner (table.holdersOf page).toList
  have listed : Std.ExtTreeSet.ofList (table.holdersOf page).toList = table.holdersOf page :=
    Std.ExtTreeSet.ext_mem fun holder => by simp
  rw [listed] at redirects
  have outcome := table.attempt_outcome page owner mode
  generalize table.attempt page owner mode = result at outcome ⊢
  -- Before the refusal the owner may have had other edges; the cycle test is only about the new
  -- ones.
  cases outcome with
  | granted lock answer => exact answers_grant (.inl answer)
  | joined lock answer => exact answers_grant (.inr answer)
  | refused answer free =>
    have blocked : ¬table.Admits page owner mode := by simp [admits_iff_request, answer]
    exact {
      granted := by simp [Decision.answer, blocked]
      deadlock := by simp [Decision.answer, ← closes, free]
      grants := by simp [Decision.answer]
      kept := fun _ => ⟨rfl, rfl⟩
      waiting := fun _ => redirects
      ended := by simp [Decision.answer] }
  | deadlock answer closed =>
    have blocked : ¬table.Admits page owner mode := by simp [admits_iff_request, answer]
    exact {
      granted := by simp [Decision.answer, blocked]
      deadlock := by simp [Decision.answer, ← closes, closed, blocked]
      grants := by simp [Decision.answer]
      kept := fun _ => ⟨rfl, rfl⟩
      waiting := by simp [Decision.answer]
      ended := fun _ => redirects.clearWaiting }

theorem Answers.giveUp {later : LockTable} (answers : table.Answers page owner mode later .waiting) :
    table.Answers page owner mode (later.clearWaiting owner) .timedOut where
  granted := by simpa using answers.granted
  deadlock := by simpa using answers.deadlock
  grants := by simp
  kept _ := answers.kept (by simp)
  waiting := by simp
  ended _ := (answers.waiting rfl).clearWaiting

theorem Valid.exists_other (valid : table.Valid) (blocked : ¬table.Admits page owner mode) :
    ∃ holder ∈ table.holdersOf page, holder ≠ owner := by
  rw [admits_iff_request, not_not, Lock.request_eq_refused_iff] at blocked
  obtain ⟨lock, found, sole, _⟩ := blocked
  obtain ⟨holder, member, apart⟩ := Lock.isSoleHolder_eq_false (valid page lock found).held sole
  exact ⟨holder, mem_holdersOf.mpr ⟨lock, found, member⟩, apart⟩

end LockTable

namespace LockManager

variable (manager : LockManager) (page : PageId) (owner : TransactionId) (mode : LockMode)

theorem answers_acquire :
    manager.table.Answers page owner mode (manager.acquire page owner mode).1.table
      (manager.acquire page owner mode).2 := by
  have answers := manager.table.answers_attempt page owner mode
  simp only [acquire, withdraw]
  generalize manager.table.attempt page owner mode = result at answers ⊢
  obtain ⟨table, decision⟩ := result
  cases decision <;> exact answers

theorem answers_expire :
    manager.table.Answers page owner mode (manager.expire page owner mode).1.table
      (manager.expire page owner mode).2 := by
  have answers := manager.table.answers_attempt page owner mode
  simp only [expire, withdraw]
  generalize manager.table.attempt page owner mode = result at answers ⊢
  obtain ⟨table, decision⟩ := result
  cases decision with
  | granted => exact answers
  | joined => exact answers
  | refused => exact answers.giveUp
  | deadlock => exact answers

theorem answers_tryAcquire :
    manager.table.Answers page owner mode (manager.tryAcquire page owner mode).1.table
      (manager.tryAcquire page owner mode).2.answer := by
  have answers := manager.table.answers_attempt page owner mode
  simp only [tryAcquire]
  generalize manager.table.attempt page owner mode = result at answers ⊢
  obtain ⟨table, decision⟩ := result
  cases decision <;> exact answers

end LockManager

namespace Traffic

/-- One attempt after any turns of any transactions: on its own, of a request that waits if it is
refused, of one whose time is over and of one that does not wait. -/
theorem attempt_decides (turns : List Turn) (page : PageId) (owner : TransactionId)
    (mode : LockMode) :
    let manager := (turns.foldl after start).manager
    let table := manager.table
    table.Answers page owner mode (table.attempt page owner mode).1
      (table.attempt page owner mode).2.answer ∧
    table.Answers page owner mode (manager.acquire page owner mode).1.table
      (manager.acquire page owner mode).2 ∧
    table.Answers page owner mode (manager.expire page owner mode).1.table
      (manager.expire page owner mode).2 ∧
    table.Answers page owner mode (manager.tryAcquire page owner mode).1.table
      (manager.tryAcquire page owner mode).2.answer ∧
    (manager.acquire page owner mode).2 ≠ .timedOut ∧
    (manager.expire page owner mode).2 ≠ .waiting ∧
    (¬table.Admits page owner mode → ∃ holder ∈ table.holdersOf page, holder ≠ owner) := by
  intro manager table
  refine ⟨table.answers_attempt page owner mode, manager.answers_acquire page owner mode,
    manager.answers_expire page owner mode, manager.answers_tryAcquire page owner mode, ?_, ?_,
    (consistent_run turns).valid.exists_other⟩
  · rw [manager.acquire_answer ⟨page, owner, mode⟩]
    split <;> simp
  · rw [manager.expire_answer ⟨page, owner, mode⟩]
    split <;> simp

/-- The writer has the second page and waits for both readers of the first: one of them cannot have
the second page too, and the writer, when its time is over, waits for nobody. -/
theorem attempt_decides_lateReader :
    let manager := (lateReader.foldl after start).manager
    (manager.acquire ⟨⟨0⟩, 1⟩ ⟨4⟩ .exclusive).2 = .deadlock ∧
      manager.table.waits.Redirects ⟨1⟩ ∅ (manager.expire ⟨⟨0⟩, 0⟩ ⟨1⟩ .exclusive).1.table.waits := by
  intro manager
  have asked := (attempt_decides lateReader ⟨⟨0⟩, 1⟩ ⟨4⟩ .exclusive).2.1
  have expired := (attempt_decides lateReader ⟨⟨0⟩, 0⟩ ⟨1⟩ .exclusive).2.2.1
  have late : (manager.expire ⟨⟨0⟩, 0⟩ ⟨1⟩ .exclusive).2 = .timedOut := by decide +kernel
  have blocked : ¬manager.table.Admits ⟨⟨0⟩, 1⟩ ⟨4⟩ .exclusive := by decide +kernel
  have holds : ⟨1⟩ ∈ manager.table.holdersOf ⟨⟨0⟩, 1⟩ := by decide +kernel
  have edge : ⟨4⟩ ∈ manager.table.waits.targets ⟨1⟩ := by decide +kernel
  have closes : manager.table.Closes ⟨⟨0⟩, 1⟩ ⟨4⟩ := ⟨⟨1⟩, holds, by decide, .single edge⟩
  exact ⟨asked.deadlock.mpr ⟨blocked, closes⟩, expired.ended (.inr late)⟩

end Traffic
end PagedTables
