import Custody.Graph.Components
import Custody.Graph.Progress

/-!
# Graphs over shared nodes

The components of a graph are graphs of their own, but their nodes are still the
nodes of the whole: what happens to a unit in one of them is seen in the other,
while the lists of units by phase are kept by each graph for itself.

A pool holds the nodes of several graphs.  An operation takes one graph out of
the pool, works on it as a `Graph`, and puts it back.
-/

namespace Custody.Graph

/-- The place of a graph in a pool. -/
abbrev GraphId : Type := Nat

/-- A graph whose nodes are kept in a pool: the place of each node, and the lists
of units. -/
structure View where
  members : Table UnitId Nat
  ready : KeySet UnitId
  notReady : KeySet UnitId
  processing : KeySet UnitId
  policy : Policy
  deriving Inhabited

/-- Nodes, and graphs over them. -/
structure Pool where
  nodes : List GraphNode
  views : List View
  deriving Inhabited

namespace Pool

/-- The pool without graphs. -/
def empty : Pool := ⟨[], []⟩

/-- A graph of the pool. -/
def graph (pool : Pool) (id : GraphId) : Graph :=
  let view := pool.views.getD id default
  { nodes := view.members.map fun _ place => pool.nodes.getD place default
    ready := view.ready
    notReady := view.notReady
    processing := view.processing
    policy := view.policy }

/-- Put a graph back; new units get nodes of their own. -/
def restore (pool : Pool) (id : GraphId) (graph : Graph) : Pool :=
  let known := (pool.views.getD id default).members
  let (nodes, members) := graph.nodes.entries.foldl
    (fun (nodes, members) (unit, node) =>
      match known.find? unit with
      | some place => (nodes.set place node, members)
      | none => (nodes ++ [node], members.insert unit nodes.length))
    (pool.nodes, known)
  { nodes
    views := pool.views.set id
      { members
        ready := graph.ready
        notReady := graph.notReady
        processing := graph.processing
        policy := graph.policy } }

/-- Add a graph with nodes of its own. -/
def add (pool : Pool) (graph : Graph) : GraphId × Pool :=
  let id := pool.views.length
  (id, { pool with views := pool.views ++ [default] }.restore id graph)

/-- Add the components of a graph, over the nodes of that graph. -/
def addComponents (pool : Pool) (id : GraphId) : List GraphId × Pool :=
  let whole := (pool.views.getD id default).members
  let parts := (pool.graph id).components.map fun part =>
    { members := whole.filter fun unit _ => part.nodes.contains unit
      ready := part.ready
      notReady := part.notReady
      processing := part.processing
      policy := part.policy : View }
  ((List.range parts.length).map (pool.views.length + ·),
    { pool with views := pool.views ++ parts })

/-- The outcome of an operation on one graph of the pool. -/
def run {ε α : Type} (pool : Pool) (id : GraphId) (action : Action ε α) : Except ε α × Pool :=
  match action (pool.graph id) with
  | .ok result graph => (.ok result, pool.restore id graph)
  | .error error graph => (.error error, pool.restore id graph)

end Pool

end Custody.Graph
