import Custody.Graph.Components
import Mathlib.Logic.Relation

/-!
# Connected units

Edges connect units in both directions.  A function that names, for every unit, the least
unit it is connected with can be kept up while edges are added one by one: the greater of
the two units at the ends of an edge gives way to the lesser.  There is only one such
function, so the order in which the edges are added does not matter, and nor does the way
in which the function is stored.

The labels of a graph are stored unit by unit.
-/

namespace Custody.Graph

open Relation

/-- Some chain of edges, each taken in either direction, leads from one unit to the other. -/
def Connected (edges : List (UnitId × UnitId)) : UnitId → UnitId → Prop :=
  EqvGen fun left right => (left, right) ∈ edges

/-- Whatever both ends of each edge have in common, connected units have in common. -/
theorem eq_of_connected {α : Type} {edges : List (UnitId × UnitId)} {value : UnitId → α}
    (agrees : ∀ left right, (left, right) ∈ edges → value left = value right)
    {left right : UnitId} (connected : Connected edges left right) : value left = value right := by
  induction connected with
  | rel left right listed => exact agrees left right listed
  | refl => rfl
  | symm _ _ _ ih => exact ih.symm
  | trans _ _ _ _ _ first second => exact first.trans second

/-- The function names the least of the units that each unit is connected with. -/
structure Represents (edges : List (UnitId × UnitId)) (root : UnitId → UnitId) : Prop where
  same : ∀ left right, root left = root right ↔ Connected edges left right
  idem : ∀ unit, root (root unit) = root unit
  below : ∀ unit, (compare (root unit) unit).isLE = true

/-- Of the two units that are named at the ends of an edge, the lesser takes the place of
the other. -/
def Links (root : UnitId → UnitId) (edge : UnitId × UnitId) (next : UnitId → UnitId) : Prop :=
  ∃ kept dropped, (kept = root edge.1 ∧ dropped = root edge.2 ∨
      kept = root edge.2 ∧ dropped = root edge.1) ∧
    (compare kept dropped).isLE = true ∧
    ∀ unit, next unit = if root unit = dropped then kept else root unit

theorem isLE_of_isLT {order : Ordering} (less : order.isLT = true) : order.isLE = true := by
  revert less
  cases order <;> decide

theorem isLE_of_not_isLT {left right : UnitId} (notLess : ¬(compare left right).isLT = true) :
    (compare right left).isLE = true := by
  rw [← Std.OrientedCmp.isGE_iff_isLE]
  revert notLess
  cases compare left right <;> decide

namespace Represents

variable {edges others : List (UnitId × UnitId)} {root next : UnitId → UnitId}

theorem nil : Represents [] id := by
  refine ⟨fun left right => ⟨?_, fun connected => ?_⟩, fun _ => rfl, fun unit => by simp⟩
  · rintro rfl
    exact .refl left
  · exact eq_of_connected (fun _ _ listed => by cases listed) connected

theorem connected (represents : Represents edges root) (unit : UnitId) :
    Connected edges unit (root unit) :=
  (represents.same _ _).1 (represents.idem unit).symm

/-- What is named is less than all that is connected with it. -/
theorem isLE_of_connected (represents : Represents edges root) {unit other : UnitId}
    (connected : Connected edges unit other) : (compare (root unit) other).isLE = true := by
  rw [(represents.same unit other).2 connected]
  exact represents.below other

/-- Which units are connected determines what is named. -/
theorem unique (represents : Represents edges root) (also : Represents others next)
    (agree : ∀ edge, edge ∈ edges ↔ edge ∈ others) : root = next := by
  have relation : Connected edges = Connected others := by
    unfold Connected
    simp only [agree]
  funext unit
  have left := represents.isLE_of_connected (relation ▸ also.connected unit)
  have right := also.isLE_of_connected (relation ▸ represents.connected unit)
  exact Std.LawfulEqCmp.eq_of_compare (Std.OrientedCmp.isLE_antisymm left right)

/-- An edge is added. -/
theorem link {edge : UnitId × UnitId} (represents : Represents edges root)
    (links : Links root edge next) : Represents (edges ++ [edge]) next := by
  obtain ⟨kept, dropped, either, less, moved⟩ := links
  have more : ∀ {left right}, Connected edges left right →
      Connected (edges ++ [edge]) left right := by
    intro left right connected
    exact EqvGen.mono (fun _ _ listed => List.mem_append_left _ listed) _ _ connected
  have ends : Connected (edges ++ [edge]) (root edge.1) (root edge.2) :=
    .trans _ _ _ (.symm _ _ (more (represents.connected edge.1)))
      (.trans _ _ _ (.rel _ _ (by simp)) (more (represents.connected edge.2)))
  have swapped : Connected (edges ++ [edge]) dropped kept := by
    rcases either with ⟨rfl, rfl⟩ | ⟨rfl, rfl⟩
    · exact .symm _ _ ends
    · exact ends
  have fixed : root kept = kept := by
    rcases either with ⟨rfl, _⟩ | ⟨rfl, _⟩
    · exact represents.idem _
    · exact represents.idem _
  have reaches : ∀ unit, Connected (edges ++ [edge]) unit (next unit) := by
    intro unit
    rw [moved]
    split
    next here => exact .trans _ _ _ (here ▸ more (represents.connected unit)) swapped
    next => exact more (represents.connected unit)
  refine ⟨fun left right => ⟨fun same => ?_, fun connected => ?_⟩, fun unit => ?_, fun unit => ?_⟩
  · exact .trans _ _ _ (reaches left) (same ▸ .symm _ _ (reaches right))
  · refine eq_of_connected (fun left right listed => ?_) connected
    rcases List.mem_append.1 listed with earlier | last
    · rw [moved, moved, (represents.same left right).2 (.rel _ _ earlier)]
    · cases List.mem_singleton.1 last
      rw [moved, moved]
      rcases either with ⟨rfl, rfl⟩ | ⟨rfl, rfl⟩
      · simp
      · simp
  · rw [moved unit]
    split
    next => rw [moved, fixed, ite_self]
    next apart => rw [moved, represents.idem, if_neg apart]
  · rw [moved unit]
    split
    next here => exact Std.TransCmp.isLE_trans less (here ▸ represents.below unit)
    next => exact represents.below unit

/-- Edges are added one by one, whatever the function is stored in. -/
theorem foldl {σ : Type} (Valid : σ → Prop) (view : σ → UnitId → UnitId)
    {add : σ → UnitId × UnitId → σ}
    (step : ∀ state edge, Valid state →
      Valid (add state edge) ∧ Links (view state) edge (view (add state edge)))
    {state : σ} (valid : Valid state) (represents : Represents edges (view state))
    (more : List (UnitId × UnitId)) :
    Valid (more.foldl add state) ∧ Represents (edges ++ more) (view (more.foldl add state)) := by
  induction more generalizing edges state with
  | nil =>
      rw [List.append_nil]
      exact ⟨valid, represents⟩
  | cons edge rest ih =>
      obtain ⟨valid, links⟩ := step state edge valid
      have later := ih valid (represents.link links)
      rw [List.append_assoc] at later
      exact later

end Represents

/-! ## Labels -/

namespace Labels

variable {labels : Labels}

/-- Every label is listed itself. -/
def Rooted (labels : Labels) : Prop :=
  ∀ unit label, labels.find? unit = some label → (labels.find? label).isSome = true

/-- The labels with entries for two units that may not be listed yet. -/
def listing (labels : Labels) (left right : UnitId) : Labels :=
  (labels.insert left (labels.of left)).insert right (labels.of right)

theorem find?_listing (labels : Labels) (left right unit : UnitId) :
    (labels.listing left right).find? unit =
      if unit = left ∨ unit = right then some (labels.of unit) else labels.find? unit := by
  rw [listing, Table.find?_insert, Table.find?_insert]
  simp only [Std.LawfulEqCmp.compare_eq_iff_eq]
  by_cases first : unit = left
  · subst first
    by_cases second : unit = right <;> simp [second]
  · by_cases second : unit = right <;> simp [first, second]

theorem of_listing (labels : Labels) (left right unit : UnitId) :
    (labels.listing left right).of unit = labels.of unit := by
  rw [of, find?_listing]
  split
  · rfl
  · rfl

theorem Rooted.listing (rooted : labels.Rooted) (left right : UnitId) :
    (labels.listing left right).Rooted ∧
      ((labels.listing left right).find? (labels.of left)).isSome = true ∧
      ((labels.listing left right).find? (labels.of right)).isSome = true := by
  have kept : ∀ unit, (labels.find? unit).isSome = true →
      ((labels.listing left right).find? unit).isSome = true := by
    intro unit listed
    rw [find?_listing]
    split
    · rfl
    · exact listed
  have label : ∀ unit, unit = left ∨ unit = right →
      ((labels.listing left right).find? (labels.of unit)).isSome = true := by
    intro unit either
    cases found : labels.find? unit with
    | some label =>
        have same : labels.of unit = label := by rw [of, found, Option.getD_some]
        rw [same]
        exact kept label (rooted unit label found)
    | none =>
        have same : labels.of unit = unit := by rw [of, found, Option.getD_none]
        rw [same, find?_listing, if_pos either]
        rfl
  refine ⟨fun unit root found => ?_, label left (.inl rfl), label right (.inr rfl)⟩
  rw [find?_listing] at found
  split at found
  next either =>
    cases found
    exact label unit either
  next => exact kept root (rooted unit root found)

/-- Replacing a listed label by another listed label. -/
theorem relabel {listed : Labels} (rooted : listed.Rooted) {kept dropped : UnitId}
    (first : (listed.find? kept).isSome = true) (second : (listed.find? dropped).isSome = true) :
    Rooted (listed.map fun _ label => if label = dropped then kept else label) ∧
      ∀ unit, of (listed.map fun _ label => if label = dropped then kept else label) unit =
        if listed.of unit = dropped then kept else listed.of unit := by
  constructor
  · intro unit label found
    rw [Table.find?_map] at found ⊢
    obtain ⟨old, before, rfl⟩ := Option.map_eq_some_iff.1 found
    rw [Option.isSome_map]
    split
    · exact first
    · exact rooted unit old before
  · intro unit
    rw [of, of, Table.find?_map]
    cases found : listed.find? unit with
    | some label => rfl
    | none =>
        have apart : unit ≠ dropped := by
          rintro rfl
          rw [found] at second
          cases second
        simp [apart]

/-- Joining two units replaces the greater of their labels by the lesser. -/
theorem Rooted.join (rooted : labels.Rooted) (edge : UnitId × UnitId) :
    (labels.join edge.1 edge.2).Rooted ∧ Links labels.of edge (labels.join edge.1 edge.2).of := by
  obtain ⟨listed, first, second⟩ := rooted.listing edge.1 edge.2
  unfold Labels.join
  dsimp only
  split
  next less =>
    obtain ⟨kept, same⟩ := relabel listed second first
    simp only [of_listing] at same
    exact ⟨kept, _, _, .inr ⟨rfl, rfl⟩, isLE_of_isLT less, same⟩
  next notLess =>
    obtain ⟨kept, same⟩ := relabel listed first second
    simp only [of_listing] at same
    exact ⟨kept, _, _, .inl ⟨rfl, rfl⟩, isLE_of_not_isLT notLess, same⟩

theorem represents_foldl_join (edges : List (UnitId × UnitId)) :
    Represents edges (edges.foldl (fun labels edge => labels.join edge.1 edge.2) (∅ : Labels)).of :=
  have empty : Rooted ∅ := fun _ _ found => by cases found
  (Represents.foldl Rooted of (fun _ edge rooted => rooted.join edge) empty .nil edges).2

end Labels

/-! ## The edges of a graph -/

variable {graph : Graph} {unit other : UnitId}

/-- The edges of a graph, from each unit to those that come before it. -/
def edges (graph : Graph) : List (UnitId × UnitId) :=
  graph.nodes.entries.flatMap fun entry => entry.2.before.toList.map (entry.1, ·)

theorem mem_edges_iff : (unit, other) ∈ graph.edges ↔
    ∃ node, graph.nodes.find? unit = some node ∧ node.before.contains other = true := by
  simp only [edges, List.mem_flatMap, List.mem_map, Prod.mk.injEq, Table.find?_eq_some_iff,
    ← Table.mem_keys_iff]
  constructor
  · rintro ⟨⟨_, node⟩, listed, _, before, rfl, rfl⟩
    exact ⟨node, listed, before⟩
  · rintro ⟨node, listed, before⟩
    exact ⟨(unit, node), listed, other, before, rfl, rfl⟩

/-- The label of a unit is the least unit that the edges connect it with. -/
theorem represents_labels (graph : Graph) : Represents graph.edges graph.labels.of := by
  have labels : graph.labels =
      graph.edges.foldl (fun labels edge => labels.join edge.1 edge.2) ∅ := by
    rw [edges, List.foldl_flatMap]
    simp only [List.foldl_map]
    rfl
  rw [labels]
  exact Labels.represents_foldl_join graph.edges

/-- Both ends of an edge have one label. -/
theorem label_eq_of_before {node : GraphNode} (found : graph.nodes.find? unit = some node)
    (before : node.before.contains other = true) :
    graph.labels.of unit = graph.labels.of other :=
  (graph.represents_labels.same _ _).2 (.rel _ _ (mem_edges_iff.2 ⟨node, found, before⟩))

end Custody.Graph
