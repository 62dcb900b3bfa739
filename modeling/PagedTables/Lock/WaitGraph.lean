import PagedTables.Identifier

/-! Which transactions wait for which. An edge leads from a waiting transaction to a holder of the
lock it wants; a transaction on a cycle can never get on. -/

namespace PagedTables

abbrev TransactionSet := Std.ExtTreeSet TransactionId

structure WaitGraph where
  edges : Std.ExtTreeMap TransactionId TransactionSet
deriving DecidableEq

namespace WaitGraph

def empty : WaitGraph := ⟨∅⟩

def targets (graph : WaitGraph) (waiter : TransactionId) : TransactionSet :=
  graph.edges[waiter]?.getD ∅

/-- Lets `waiter` wait for `holders` and nobody else. Nobody waits for itself. -/
def setWaiting (graph : WaitGraph) (waiter : TransactionId) (holders : List TransactionId) :
    WaitGraph :=
  let targets := (Std.ExtTreeSet.ofList holders).erase waiter
  if targets.isEmpty then ⟨graph.edges.erase waiter⟩ else ⟨graph.edges.insert waiter targets⟩

def clearWaiting (graph : WaitGraph) (waiter : TransactionId) : WaitGraph :=
  ⟨graph.edges.erase waiter⟩

def remove (graph : WaitGraph) (transaction : TransactionId) : WaitGraph :=
  ⟨(graph.edges.erase transaction).filterMap fun _ targets =>
    let left := targets.erase transaction
    if left.isEmpty then none else some left⟩

/-- Looks for `goal` among the stacked transactions. The first that waits for others is visited: its
edges are taken out, and the search goes on with those it waits for. -/
def seek (goal : TransactionId) (edges : Std.ExtTreeMap TransactionId TransactionSet)
    (visit : Std.ExtTreeMap TransactionId TransactionSet → List TransactionId → Bool) :
    List TransactionId → Bool
  | [] => false
  | node :: stack =>
    if node = goal then true
    else
      match edges[node]? with
      | none => seek goal edges visit stack
      | some targets => visit (edges.erase node) (targets.toList ++ stack)

/-- Whether `goal` is among the stacked transactions or can be reached from them along edges of which
`sources` transactions are the source. Each is visited at most once. -/
def reaches (goal : TransactionId) : Nat → Std.ExtTreeMap TransactionId TransactionSet →
    List TransactionId → Bool
  | 0, _, stack => stack.contains goal
  | sources + 1, edges, stack => seek goal edges (reaches goal sources) stack

def isOnCycle (graph : WaitGraph) (transaction : TransactionId) : Bool :=
  reaches transaction graph.edges.size graph.edges (graph.targets transaction).toList

end WaitGraph
end PagedTables
