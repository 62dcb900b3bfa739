import Mathlib.Logic.Relation
import PagedTables.Lock.WaitGraph

/-! Paths in the wait graph. The cycle test finds exactly the transactions that wait, through any
number of others, for themselves; a graph that is only changed after such a test stays without
cycles. -/

namespace PagedTables.WaitGraph
open Relation

abbrev Edges := Std.ExtTreeMap TransactionId TransactionSet

def Edge (edges : Edges) (waiter holder : TransactionId) : Prop :=
  ∃ targets, edges[waiter]? = some targets ∧ holder ∈ targets

def Waits (graph : WaitGraph) (waiter holder : TransactionId) : Prop :=
  holder ∈ graph.targets waiter

def Acyclic (graph : WaitGraph) : Prop := ∀ transaction, ¬TransGen graph.Waits transaction transaction

theorem waits_iff_edge {graph : WaitGraph} {waiter holder : TransactionId} :
    graph.Waits waiter holder ↔ Edge graph.edges waiter holder := by
  unfold Waits targets Edge
  cases graph.edges[waiter]? with
  | none => simp
  | some targets => simp

theorem waits_eq_edge (graph : WaitGraph) : graph.Waits = Edge graph.edges := by
  funext waiter holder
  exact propext waits_iff_edge

theorem edge_erase {edges : Edges} {node waiter holder : TransactionId} :
    Edge (edges.erase node) waiter holder ↔ waiter ≠ node ∧ Edge edges waiter holder := by
  unfold Edge
  rw [Std.ExtTreeMap.getElem?_erase]
  by_cases same : node = waiter
  · simp [same]
  · simp [same, Ne.symm same]

theorem Edge.of_erase {edges : Edges} {node waiter holder : TransactionId}
    (edge : Edge (edges.erase node) waiter holder) : Edge edges waiter holder :=
  (edge_erase.mp edge).2

theorem path_of_path_erase {edges : Edges} {node start goal : TransactionId}
    (path : ReflTransGen (Edge (edges.erase node)) start goal) :
    ReflTransGen (Edge edges) start goal :=
  ReflTransGen.mono (fun _ _ => Edge.of_erase) _ _ path

/-- A path either avoids a node's edges or takes one of them for the last time and avoids them from
there on. -/
theorem path_erase_or {edges : Edges} (node : TransactionId) {start goal : TransactionId}
    (path : ReflTransGen (Edge edges) start goal) :
    ReflTransGen (Edge (edges.erase node)) start goal ∨
      ∃ next, Edge edges node next ∧ ReflTransGen (Edge (edges.erase node)) next goal := by
  induction path using ReflTransGen.head_induction_on with
  | refl => exact .inl .refl
  | @head start next edge _ ih =>
    rcases ih with avoiding | last
    · by_cases same : start = node
      · subst same
        exact .inr ⟨next, edge, avoiding⟩
      · exact .inl (.head (edge_erase.mpr ⟨same, edge⟩) avoiding)
    · exact .inr last

theorem eq_of_path_of_no_edge {edges : Edges} {start goal : TransactionId}
    (none : ∀ next, ¬Edge edges start next) (path : ReflTransGen (Edge edges) start goal) :
    start = goal := by
  rcases path.cases_head with same | ⟨next, edge, _⟩
  · exact same
  · exact absurd edge (none next)

theorem exists_path_cons_iff {edges : Edges} {node goal : TransactionId} {stack : List TransactionId}
    {targets : TransactionSet} (apart : node ≠ goal) (found : edges[node]? = some targets) :
    (∃ start ∈ targets.toList ++ stack, ReflTransGen (Edge (edges.erase node)) start goal) ↔
      ∃ start ∈ node :: stack, ReflTransGen (Edge edges) start goal := by
  have edge_iff : ∀ next, Edge edges node next ↔ next ∈ targets := by
    intro next
    simp [Edge, found]
  constructor
  · rintro ⟨start, member, path⟩
    rcases List.mem_append.mp member with target | stacked
    · have edge := (edge_iff start).mpr (Std.ExtTreeSet.mem_toList.mp target)
      exact ⟨node, List.mem_cons_self, .head edge (path_of_path_erase path)⟩
    · exact ⟨start, List.mem_cons_of_mem _ stacked, path_of_path_erase path⟩
  · rintro ⟨start, member, path⟩
    rcases path_erase_or node path with avoiding | ⟨next, edge, path⟩
    · rcases List.mem_cons.mp member with rfl | stacked
      · have stuck : ∀ next, ¬Edge (edges.erase start) start next :=
          fun next edge => (edge_erase.mp edge).1 rfl
        exact absurd (eq_of_path_of_no_edge stuck avoiding) apart
      · exact ⟨start, List.mem_append_right _ stacked, avoiding⟩
    · have target := Std.ExtTreeSet.mem_toList.mpr ((edge_iff next).mp edge)
      exact ⟨next, List.mem_append_left _ target, path⟩

theorem seek_iff {goal : TransactionId} {edges : Edges} {visit : Edges → List TransactionId → Bool}
    (visits : ∀ node stack, node ∈ edges →
      (visit (edges.erase node) stack = true ↔
        ∃ start ∈ stack, ReflTransGen (Edge (edges.erase node)) start goal))
    (stack : List TransactionId) :
    seek goal edges visit stack = true ↔ ∃ start ∈ stack, ReflTransGen (Edge edges) start goal := by
  induction stack with
  | nil => simp [seek]
  | cons node stack ih =>
    rw [seek]
    by_cases same : node = goal
    · subst same
      simp only [↓reduceIte, true_iff]
      exact ⟨node, List.mem_cons_self, .refl⟩
    · rw [if_neg same]
      cases found : edges[node]? with
      | none =>
        have stuck : ∀ next, ¬Edge edges node next := by simp [Edge, found]
        simp only [ih, List.mem_cons, exists_eq_or_imp]
        exact ⟨.inr, fun either => either.resolve_left fun path =>
          same (eq_of_path_of_no_edge stuck path)⟩
      | some targets =>
        have member : node ∈ edges := Std.ExtTreeMap.mem_iff_isSome_getElem?.mpr (by simp [found])
        simp only
        rw [visits node _ member, exists_path_cons_iff same found]

/-- The search is complete as soon as it may visit every transaction that waits. -/
theorem reaches_iff {goal : TransactionId} {sources : Nat} {edges : Edges}
    (enough : edges.size ≤ sources) (stack : List TransactionId) :
    reaches goal sources edges stack = true ↔
      ∃ start ∈ stack, ReflTransGen (Edge edges) start goal := by
  induction sources generalizing edges stack with
  | zero =>
    have empty : edges = ∅ := Std.ExtTreeMap.eq_empty_iff_size_eq_zero.mpr (Nat.le_zero.mp enough)
    have stuck : ∀ start next, ¬Edge edges start next := by simp [Edge, empty]
    rw [reaches, List.contains_iff_mem]
    constructor
    · exact fun member => ⟨goal, member, .refl⟩
    · rintro ⟨start, member, path⟩
      rwa [← eq_of_path_of_no_edge (stuck start) path]
  | succ sources ih =>
    -- A transaction that is visited is erased, so no more than `sources` others are left.
    rw [reaches]
    refine seek_iff (fun node stack member => ih ?_ stack) stack
    rw [Std.ExtTreeMap.size_erase, if_pos (Std.ExtTreeMap.contains_iff_mem.mpr member)]
    omega

theorem isOnCycle_iff {graph : WaitGraph} {transaction : TransactionId} :
    graph.isOnCycle transaction = true ↔ TransGen graph.Waits transaction transaction := by
  rw [isOnCycle, reaches_iff (Nat.le_refl _), TransGen.head'_iff, waits_eq_edge]
  simp only [Std.ExtTreeSet.mem_toList, ← waits_iff_edge, Waits]

theorem waits_setWaiting {graph : WaitGraph} {owner waiter holder : TransactionId}
    {holders : List TransactionId} :
    (graph.setWaiting owner holders).Waits waiter holder ↔
      if waiter = owner then holder ∈ holders ∧ holder ≠ owner else graph.Waits waiter holder := by
  have target : ∀ set : TransactionSet, set = (Std.ExtTreeSet.ofList holders).erase owner →
      (holder ∈ set ↔ holder ∈ holders ∧ holder ≠ owner) := by
    rintro set rfl
    rw [Std.ExtTreeSet.mem_erase, Std.ExtTreeSet.mem_ofList, List.contains_iff_mem, and_comm,
      ne_eq, Std.LawfulEqOrd.compare_eq_iff_eq, ← ne_eq, ne_comm]
  simp only [setWaiting, Waits, targets]
  split
  · next empty =>
    have none := Std.ExtTreeSet.isEmpty_iff.mp empty
    rw [Std.ExtTreeMap.getElem?_erase]
    by_cases same : waiter = owner
    · simp [same, ← target _ rfl, none]
    · simp [same, Ne.symm same]
  · rw [Std.ExtTreeMap.getElem?_insert]
    by_cases same : waiter = owner
    · simp only [same, Std.compare_self, ↓reduceIte, Option.getD_some]
      exact target _ rfl
    · simp [same, Ne.symm same]

theorem waits_clearWaiting {graph : WaitGraph} {owner waiter holder : TransactionId} :
    (graph.clearWaiting owner).Waits waiter holder ↔
      waiter ≠ owner ∧ graph.Waits waiter holder := by
  rw [waits_iff_edge, waits_iff_edge, clearWaiting, edge_erase]

theorem waits_remove {graph : WaitGraph} {transaction waiter holder : TransactionId} :
    (graph.remove transaction).Waits waiter holder ↔
      waiter ≠ transaction ∧ holder ≠ transaction ∧ graph.Waits waiter holder := by
  simp only [remove, Waits, targets, Std.ExtTreeMap.getElem?_filterMap',
    Std.ExtTreeMap.getElem?_erase]
  by_cases same : transaction = waiter
  · simp [same]
  · cases graph.edges[waiter]? with
    | none => simp [same]
    | some targets =>
      simp only [Std.LawfulEqOrd.compare_eq_iff_eq, same, ↓reduceIte, Option.bind_some,
        Option.getD_some, ne_eq, Ne.symm same, not_false_eq_true, true_and]
      split
      · next empty =>
        have none := Std.ExtTreeSet.eq_empty_iff_forall_not_mem.mp
          (Std.ExtTreeSet.isEmpty_iff.mp empty) holder
        simp only [Std.ExtTreeSet.mem_erase, Std.LawfulEqOrd.compare_eq_iff_eq, ne_eq] at none
        simpa [eq_comm] using none
      · simp [Std.ExtTreeSet.mem_erase, ne_comm]

theorem not_waits_empty (waiter holder : TransactionId) : ¬empty.Waits waiter holder := by
  simp [Waits, targets, empty]

theorem acyclic_empty : empty.Acyclic := by
  intro transaction cycle
  obtain ⟨next, edge, _⟩ := TransGen.head'_iff.mp cycle
  exact not_waits_empty transaction next edge

theorem Acyclic.mono {graph smaller : WaitGraph} (acyclic : graph.Acyclic)
    (fewer : ∀ waiter holder, smaller.Waits waiter holder → graph.Waits waiter holder) :
    smaller.Acyclic :=
  fun transaction cycle => acyclic transaction (TransGen.mono fewer _ _ cycle)

theorem Acyclic.clearWaiting {graph : WaitGraph} (acyclic : graph.Acyclic)
    (owner : TransactionId) : (graph.clearWaiting owner).Acyclic :=
  acyclic.mono fun _ _ edge => (waits_clearWaiting.mp edge).2

theorem Acyclic.remove {graph : WaitGraph} (acyclic : graph.Acyclic) (transaction : TransactionId) :
    (graph.remove transaction).Acyclic :=
  acyclic.mono fun _ _ edge => (waits_remove.mp edge).2.2

theorem path_setWaiting {graph : WaitGraph} {owner start goal : TransactionId}
    {holders : List TransactionId}
    (path : TransGen (graph.setWaiting owner holders).Waits start goal) :
    TransGen graph.Waits start goal ∨
      ReflTransGen (graph.setWaiting owner holders).Waits start owner ∧
        TransGen (graph.setWaiting owner holders).Waits owner goal := by
  -- Edges are old as long as the path does not come by `owner`.
  induction path using TransGen.head_induction_on with
  | @single start edge =>
    by_cases same : start = owner
    · subst same
      exact .inr ⟨.refl, .single edge⟩
    · rw [waits_setWaiting, if_neg same] at edge
      exact .inl (.single edge)
  | @head start next edge path ih =>
    by_cases same : start = owner
    · subst same
      exact .inr ⟨.refl, .head edge path⟩
    · rcases ih with old | ⟨before, after⟩
      · rw [waits_setWaiting, if_neg same] at edge
        exact .inl (.head edge old)
      · exact .inr ⟨.head edge before, after⟩

theorem Acyclic.setWaiting {graph : WaitGraph} (acyclic : graph.Acyclic) {owner : TransactionId}
    {holders : List TransactionId}
    (tested : (graph.setWaiting owner holders).isOnCycle owner = false) :
    (graph.setWaiting owner holders).Acyclic := by
  intro transaction cycle
  rcases path_setWaiting cycle with old | ⟨before, after⟩
  · exact acyclic transaction old
  · have closed := isOnCycle_iff.mpr (after.trans_left before)
    rw [tested] at closed
    exact Bool.noConfusion closed

end PagedTables.WaitGraph
