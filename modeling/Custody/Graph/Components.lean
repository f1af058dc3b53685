import Custody.Graph.Dispatch

/-!
# Connected components

Units of different components never wait for each other, so the components of a
graph can be processed independently.  Every unit is labelled with the least
unit it is connected with; following an edge joins two labels.
-/

namespace Custody.Graph

/-- The label of each unit; a unit without entry is its own label. -/
abbrev Labels : Type := Table UnitId UnitId

namespace Labels

/-- The label of a unit. -/
def of (labels : Labels) (unit : UnitId) : UnitId := (labels.find? unit).getD unit

/-- Give the units of two labels the lesser of both. -/
def join (labels : Labels) (left right : UnitId) : Labels :=
  let first := labels.of left
  let second := labels.of right
  let (least, other) := if (compare second first).isLT then (second, first) else (first, second)
  ((labels.insert left first).insert right second).map fun _ label =>
    if label = other then least else label

end Labels

/-- Label the units by the edges of a graph. -/
def labels (graph : Graph) : Labels :=
  graph.nodes.entries.foldl
    (fun labels (unit, node) => node.before.toList.foldl (·.join unit ·) labels) ∅

/-- The connected components, in the order of their first units. -/
def components (graph : Graph) : List Graph :=
  let labels := graph.labels
  (graph.nodes.keys.map labels.of).eraseDups.map fun label =>
    ofNodes graph.policy (graph.nodes.filter fun unit _ => labels.of unit = label)

end Custody.Graph
