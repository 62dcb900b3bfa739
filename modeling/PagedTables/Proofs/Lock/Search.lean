import Mathlib.Algebra.BigOperators.Group.Finset.Basic
import PagedTables.Proofs.Lock.Decision

/-! The cycle test as a search with a stack, on which a transaction may stand more than once. In
whichever order the targets of a transaction are stacked, the search takes every edge at most once
and comes to the same answer. The graphs are all that calls can make of the empty one. -/

namespace PagedTables.WaitGraph
open Relation

inductive Change where
  | wait (waiter : TransactionId) (holders : List TransactionId)
  | clear (waiter : TransactionId)
  | remove (transaction : TransactionId)

def after (graph : WaitGraph) : Change → WaitGraph
  | .wait waiter holders => graph.setWaiting waiter holders
  | .clear waiter => graph.clearWaiting waiter
  | .remove transaction => graph.remove transaction

/-- No transaction waits for itself, and none is kept that waits for nobody. -/
structure Proper (graph : WaitGraph) : Prop where
  apart : ∀ transaction, ¬graph.Waits transaction transaction
  stored : ∀ waiter : TransactionId, graph.edges[waiter]? ≠ some (∅ : TransactionSet)

variable {graph : WaitGraph}

theorem Redirects.proper {owner : TransactionId} {targets : TransactionSet} {later : WaitGraph}
    (redirects : graph.Redirects owner targets later) (proper : graph.Proper)
    (apart : owner ∉ targets) (stored : later.edges[owner]? ≠ some (∅ : TransactionSet)) :
    later.Proper where
  apart transaction := by
    by_cases same : transaction = owner
    · subst same
      rwa [Waits, redirects.own]
    · have kept := proper.apart transaction
      rwa [waits_iff_edge, Edge, redirects.others transaction same, ← Edge, ← waits_iff_edge]
  stored waiter := by
    by_cases same : waiter = owner
    · exact same ▸ stored
    · exact redirects.others waiter same ▸ proper.stored waiter

theorem Proper.setWaiting (proper : graph.Proper) (waiter : TransactionId)
    (holders : List TransactionId) : (graph.setWaiting waiter holders).Proper := by
  refine (graph.redirects_setWaiting waiter holders).proper proper (by simp) ?_
  simp only [WaitGraph.setWaiting]
  split
  · simp
  · next filled =>
    rw [Std.ExtTreeMap.getElem?_insert_self, ne_eq, Option.some.injEq]
    exact fun empty => filled (Std.ExtTreeSet.isEmpty_iff.mpr empty)

theorem Proper.clearWaiting (proper : graph.Proper) (waiter : TransactionId) :
    (graph.clearWaiting waiter).Proper :=
  (graph.redirects_clearWaiting waiter).proper proper (by simp) (by simp [WaitGraph.clearWaiting])

theorem Proper.remove (proper : graph.Proper) (transaction : TransactionId) :
    (graph.remove transaction).Proper where
  apart other edge := proper.apart other (waits_remove.mp edge).2.2
  stored waiter := by
    simp only [WaitGraph.remove, Std.ExtTreeMap.getElem?_filterMap', ne_eq, Option.bind_eq_some_iff]
    rintro ⟨targets, _, left⟩
    split at left
    · cases left
    · next filled =>
      exact filled (Std.ExtTreeSet.isEmpty_iff.mpr (Option.some.inj left))

theorem Proper.after (proper : graph.Proper) (change : Change) : (graph.after change).Proper := by
  cases change with
  | wait waiter holders => exact proper.setWaiting waiter holders
  | clear waiter => exact proper.clearWaiting waiter
  | remove transaction => exact proper.remove transaction

theorem proper_empty : empty.Proper where
  apart transaction := not_waits_empty transaction transaction
  stored waiter := by simp [empty]

theorem proper_foldl (changes : List Change) (proper : graph.Proper) :
    (changes.foldl WaitGraph.after graph).Proper := by
  induction changes generalizing graph with
  | nil => exact proper
  | cons change changes ih => exact ih (proper.after change)

/-- A search under way: the transactions it has visited and those it has still to look at, the next
one first. -/
structure Search where
  visited : Finset TransactionId
  stack : List TransactionId

def Search.answer (search : Search) (goal : TransactionId) : Option Bool :=
  match search.stack with
  | [] => some false
  | node :: _ => if node = goal then some true else none

/-- The next transaction on the stack is not the goal. It is visited unless it has been, and whom it
waits for is stacked in any order. -/
inductive Step (graph : WaitGraph) (goal : TransactionId) : Search → Search → Prop
  | skip {visited : Finset TransactionId} {node : TransactionId} {stack : List TransactionId}
      (apart : node ≠ goal) (seen : node ∈ visited) :
      Step graph goal ⟨visited, node :: stack⟩ ⟨visited, stack⟩
  | visit {visited : Finset TransactionId} {node : TransactionId}
      {stack targets : List TransactionId} (apart : node ≠ goal) (fresh : node ∉ visited)
      (order : targets.Perm (graph.targets node).toList) :
      Step graph goal ⟨visited, node :: stack⟩ ⟨insert node visited, targets ++ stack⟩

inductive Searched (graph : WaitGraph) (goal : TransactionId) : Nat → Search → Prop
  | start {targets : List TransactionId} (order : targets.Perm (graph.targets goal).toList) :
      Searched graph goal 0 ⟨∅, targets⟩
  | next {count : Nat} {search later : Search} (run : Searched graph goal count search)
      (step : Step graph goal search later) : Searched graph goal (count + 1) later

variable {goal : TransactionId} {search later : Search} {count : Nat}

/-- What is stacked can be reached. Whom the goal or a visited transaction waits for has been visited
or is stacked, so that every path from the goal is looked at to its end. -/
structure Explores (graph : WaitGraph) (goal : TransactionId) (search : Search) : Prop where
  found : ∀ node ∈ search.stack, TransGen graph.Waits goal node
  passed : goal ∉ search.visited
  closed : ∀ node next, node ∈ insert goal search.visited → graph.Waits node next →
    next ∈ search.visited ∨ next ∈ search.stack

theorem mem_of_order {node next : TransactionId} {targets : List TransactionId}
    (order : targets.Perm (graph.targets node).toList) :
    next ∈ targets ↔ graph.Waits node next := by
  rw [order.mem_iff, Std.ExtTreeSet.mem_toList, Waits]

theorem explores_start {targets : List TransactionId}
    (order : targets.Perm (graph.targets goal).toList) : graph.Explores goal ⟨∅, targets⟩ where
  found _ member := .single ((mem_of_order order).mp member)
  passed := Finset.notMem_empty goal
  closed node next source edge := by
    rw [insert_empty_eq, Finset.mem_singleton] at source
    exact .inr ((mem_of_order order).mpr (source ▸ edge))

theorem Explores.step (explores : graph.Explores goal search) (step : Step graph goal search later) :
    graph.Explores goal later := by
  cases step with
  | @skip visited node stack apart seen =>
    refine ⟨fun other member => explores.found other (List.mem_cons_of_mem _ member),
      explores.passed, fun other next source edge => ?_⟩
    rcases explores.closed other next source edge with visited | stacked
    · exact .inl visited
    · rcases List.mem_cons.mp stacked with rfl | stacked
      · exact .inl seen
      · exact .inr stacked
  | @visit visited node stack targets apart fresh order =>
    have reached : TransGen graph.Waits goal node := explores.found node List.mem_cons_self
    refine ⟨fun other member => ?_, ?_, fun other next source edge => ?_⟩
    · rcases List.mem_append.mp member with target | stacked
      · exact reached.tail ((mem_of_order order).mp target)
      · exact explores.found other (List.mem_cons_of_mem _ stacked)
    · simpa [apart.symm] using explores.passed
    · by_cases own : other = node
      · subst own
        exact .inr (List.mem_append_left _ ((mem_of_order order).mpr edge))
      · have before : other ∈ insert goal visited := by
          simpa [own, or_left_comm] using source
        rcases explores.closed other next before edge with visited | stacked
        · exact .inl (Finset.mem_insert_of_mem visited)
        · rcases List.mem_cons.mp stacked with rfl | stacked
          · exact .inl (Finset.mem_insert_self next visited)
          · exact .inr (List.mem_append_right _ stacked)

theorem Searched.explores (run : Searched graph goal count search) : graph.Explores goal search := by
  induction run with
  | start order => exact explores_start order
  | next _ step ih => exact ih.step step

theorem Explores.answer {answer : Bool} (explores : graph.Explores goal search)
    (ended : search.answer goal = some answer) :
    answer = true ↔ TransGen graph.Waits goal goal := by
  obtain ⟨visited, stack⟩ := search
  cases stack with
  | nil =>
    cases ended
    -- With nothing left on the stack, all that can be reached has been visited, the goal has not.
    have all : ∀ node, TransGen graph.Waits goal node → node ∈ visited := by
      intro node path
      induction path with
      | single edge => simpa using explores.closed goal _ (Finset.mem_insert_self _ _) edge
      | tail _ edge ih => simpa using explores.closed _ _ (Finset.mem_insert_of_mem ih) edge
    simpa using fun cycle => explores.passed (all goal cycle)
  | cons node stack =>
    simp only [Search.answer] at ended
    split at ended
    · next arrived =>
      cases ended
      exact iff_of_true rfl (arrived ▸ explores.found node List.mem_cons_self)
    · cases ended

def sources (graph : WaitGraph) : Finset TransactionId := graph.edges.keys.toFinset

def edgeCount (graph : WaitGraph) : Nat := ∑ node ∈ graph.sources, (graph.targets node).size

/-- How many steps a search can still take: one for each stacked transaction and one for each edge
from a transaction that it has not visited and does not look for. -/
def left (graph : WaitGraph) (goal : TransactionId) (search : Search) : Nat :=
  search.stack.length +
    ∑ node ∈ graph.sources \ insert goal search.visited, (graph.targets node).size

theorem targets_of_not_mem_sources {node : TransactionId} (absent : node ∉ graph.sources) :
    graph.targets node = ∅ := by
  rw [sources, List.mem_toFinset, Std.ExtTreeMap.mem_keys] at absent
  rw [targets, Std.ExtTreeMap.getElem?_eq_none absent, Option.getD_none]

theorem size_add_sum_erase {nodes : Finset TransactionId} {node : TransactionId}
    (counted : node ∈ graph.sources → node ∈ nodes) :
    (graph.targets node).size + ∑ other ∈ nodes.erase node, (graph.targets other).size =
      ∑ other ∈ nodes, (graph.targets other).size := by
  by_cases member : node ∈ nodes
  · exact Finset.add_sum_erase nodes (fun other => (graph.targets other).size) member
  · have none := targets_of_not_mem_sources fun source => member (counted source)
    rw [none, Std.ExtTreeSet.size_empty, zero_add, Finset.erase_eq_of_notMem member]

theorem left_start {targets : List TransactionId}
    (order : targets.Perm (graph.targets goal).toList) :
    graph.left goal ⟨∅, targets⟩ = graph.edgeCount := by
  rw [left, edgeCount, order.length_eq, Std.ExtTreeSet.length_toList, Finset.sdiff_insert,
    Finset.sdiff_empty]
  exact size_add_sum_erase id

theorem Step.left (step : Step graph goal search later) :
    graph.left goal later + 1 = graph.left goal search := by
  cases step with
  | @skip visited node stack apart seen =>
    simp only [WaitGraph.left, List.length_cons]
    omega
  | @visit visited node stack targets apart fresh order =>
    have edges := @size_add_sum_erase graph (graph.sources \ insert goal visited) node
      (by simp [apart, fresh])
    rw [← Finset.sdiff_insert, Finset.insert_comm] at edges
    simp only [WaitGraph.left, List.length_cons, List.length_append, order.length_eq,
      Std.ExtTreeSet.length_toList]
    omega

theorem Searched.left (run : Searched graph goal count search) :
    count + graph.left goal search = graph.edgeCount := by
  induction run with
  | start order => rw [left_start order, zero_add]
  | next _ step ih =>
    rw [← ih, ← step.left]
    omega

theorem exists_step (going : search.answer goal = none) : ∃ later, Step graph goal search later := by
  obtain ⟨visited, stack⟩ := search
  cases stack with
  | nil => cases going
  | cons node stack =>
    have apart : node ≠ goal := by
      rintro rfl
      simp [Search.answer] at going
    by_cases seen : node ∈ visited
    · exact ⟨_, .skip apart seen⟩
    · exact ⟨_, .visit apart seen (.refl _)⟩

/-- Every search for `goal`, with whatever order of targets, comes to an end within as many steps as
there are edges, and its answer is that of the cycle test. -/
structure Decides (graph : WaitGraph) (goal : TransactionId) : Prop where
  cycle : graph.isOnCycle goal = true ↔ TransGen graph.Waits goal goal
  short : ∀ count search, Searched graph goal count search → count ≤ graph.edgeCount
  goes : ∀ count search, Searched graph goal count search → search.answer goal = none →
    ∃ later, Step graph goal search later
  agrees : ∀ count search answer, Searched graph goal count search →
    search.answer goal = some answer → answer = graph.isOnCycle goal

theorem decides (graph : WaitGraph) (goal : TransactionId) : graph.Decides goal where
  cycle := isOnCycle_iff
  short count search run := by
    have whole := run.left
    omega
  goes _ _ _ going := exists_step going
  agrees _ _ _ run ended := Bool.eq_iff_iff.mpr ((run.explores.answer ended).trans isOnCycle_iff.symm)

/-- What holds of the graph after any changes, and what the next change makes of it. -/
theorem cycles_found (changes : List Change) :
    let graph := changes.foldl after empty
    graph.Proper ∧ (∀ transaction, graph.Decides transaction) ∧
    (∀ waiter holders, graph.Redirects waiter ((Std.ExtTreeSet.ofList holders).erase waiter)
      (graph.after (.wait waiter holders))) ∧
    (∀ waiter, graph.Redirects waiter ∅ (graph.after (.clear waiter))) ∧
    ∀ transaction waiter holder, (graph.after (.remove transaction)).Waits waiter holder ↔
      waiter ≠ transaction ∧ holder ≠ transaction ∧ graph.Waits waiter holder := by
  intro graph
  exact ⟨proper_foldl changes proper_empty, graph.decides, graph.redirects_setWaiting,
    graph.redirects_clearWaiting, fun _ _ _ => waits_remove⟩

end PagedTables.WaitGraph
