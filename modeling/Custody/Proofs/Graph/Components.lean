import Custody.Proofs.Graph.Dispatching
import Custody.Proofs.Graph.Forest
import Custody.Proofs.Graph.Parts
import Mathlib.Data.List.Induction

/-!
# The components of a graph

However far the units of a graph have come, its components are the classes of units that
edges connect.  No edge leaves a component, so a component can be worked with on its own:
whatever may be done with it can be done.

The components come in the order of their least units.  They are the trees of a forest
that is grown along the edges, in whatever order the edges are taken.
-/

namespace Custody.Graph

open Relation

variable {graph : Graph} {unit other : UnitId}

/-- One of the units comes right before the other. -/
def Precedes (graph : Graph) (unit other : UnitId) : Prop :=
  ∃ node, graph.nodes.find? unit = some node ∧ node.before.contains other = true

/-- The least of the units of a graph. -/
structure IsLeast (graph : Graph) (unit : UnitId) : Prop where
  contains : graph.nodes.contains unit = true
  below : ∀ other, graph.nodes.contains other = true → (compare unit other).isLE = true

/-- The units that are listed under a phase are those in the phase. -/
def Enumerates (graph : Graph) (units : KeySet UnitId) (phase : Phase) : Prop :=
  ∀ unit, units.contains unit = true ↔
    ∃ node, graph.nodes.find? unit = some node ∧ node.phase = phase

/-- The parts are the classes of connected units of a graph, in the order of their least
units, and each lists its units as a graph does. -/
structure Splits (graph : Graph) (parts : List Graph) : Prop where
  nonempty : ∀ part ∈ parts, ∃ unit, part.nodes.contains unit = true
  disjoint : parts.Pairwise fun left right =>
    ∀ unit, left.nodes.contains unit = true → right.nodes.contains unit = false
  covers : ∀ unit node, graph.nodes.find? unit = some node ↔
    ∃ part ∈ parts, part.nodes.find? unit = some node
  connected : ∀ left right, graph.nodes.contains left = true → graph.nodes.contains right = true →
    ((∃ part ∈ parts, part.nodes.contains left = true ∧ part.nodes.contains right = true) ↔
      EqvGen graph.Precedes left right)
  ordered : parts.Pairwise fun left right =>
    ∃ one other, left.IsLeast one ∧ right.IsLeast other ∧ compare one other = .lt
  policy : ∀ part ∈ parts, part.policy = graph.policy
  ready : ∀ part ∈ parts, part.Enumerates part.ready .ready
  notReady : ∀ part ∈ parts, part.Enumerates part.notReady .notReady
  processing : ∀ part ∈ parts, part.Enumerates part.processing .processing
  closed : ∀ part ∈ parts, ∀ unit node, part.nodes.find? unit = some node → ∀ other,
    node.before.contains other = true ∨ node.after.contains other = true →
      part.nodes.contains other = true

/-! ## Labels of components -/

/-- A list in which every element comes after the one that stands for it, without the
elements that another one stands for. -/
theorem eraseDups_map_eq_filter {root : UnitId → UnitId} {units : List UnitId}
    (ascending : units.Pairwise fun left right => compare left right = .lt)
    (listed : ∀ unit ∈ units, root unit ∈ units) (idem : ∀ unit, root (root unit) = root unit)
    (below : ∀ unit, (compare (root unit) unit).isLE = true) :
    (units.map root).eraseDups = units.filter fun unit => root unit = unit := by
  induction units using List.reverseRecOn with
  | nil => rfl
  | append_singleton earlier last ih =>
      obtain ⟨ascending, _, less⟩ := List.pairwise_append.1 ascending
      have apart : ∀ unit ∈ earlier, root unit ≠ last := by
        rintro unit member rfl
        have above := below unit
        rw [← Std.OrientedCmp.isGE_iff_isLE, less unit member _ (by simp)] at above
        cases above
      have inside : ∀ unit ∈ earlier, root unit ∈ earlier := by
        intro unit member
        have either := listed unit (List.mem_append_left _ member)
        rw [List.mem_append, List.mem_singleton] at either
        exact either.resolve_right (apart unit member)
      rw [List.map_append, List.eraseDups_append, ih ascending inside, List.filter_append]
      congr 1
      by_cases own : root last = last
      · have fresh : last ∉ earlier.map root := by
          intro member
          obtain ⟨unit, here, same⟩ := List.mem_map.1 member
          exact apart unit here same
        rw [List.map_singleton, own, List.removeAll, List.filter_cons_of_pos (by simpa using fresh)]
        simp [own, List.eraseDups_cons]
      · have seen : root last ∈ earlier.map root := by
          have either := listed last (by simp)
          rw [List.mem_append, List.mem_singleton] at either
          exact List.mem_map.2 ⟨root last, either.resolve_right own, idem last⟩
        rw [List.map_singleton, List.removeAll, List.filter_cons_of_neg (by simpa using seen)]
        simp [own]

section Described

variable {registry : Registry} {waits : UnitId → UnitId → Prop} {phase : UnitId → Phase}
variable (describes : graph.Describes registry (Calls registry) waits phase)

include describes

/-- Both ends of an edge are units of the graph. -/
theorem Describes.contains_iff_of_connected
    (connected : Connected graph.edges unit other) :
    graph.nodes.contains unit = graph.nodes.contains other := by
  refine eq_of_connected (fun left right listed => ?_) connected
  obtain ⟨node, found, before⟩ := mem_edges_iff.1 listed
  have calls := ((describes.fits left node found).before right).1 before
  rw [Table.contains, Table.contains, describes.isSome_iff, describes.isSome_iff,
    describes.callers calls, describes.callees calls]

theorem Describes.contains_label (unit : UnitId) :
    graph.nodes.contains (graph.labels.of unit) = graph.nodes.contains unit :=
  (describes.contains_iff_of_connected (graph.represents_labels.connected unit)).symm

/-- The labels of the components are the units that are their own labels. -/
theorem Describes.partLabels_eq :
    graph.partLabels = graph.nodes.keys.filter fun unit => graph.labels.of unit = unit := by
  refine eraseDups_map_eq_filter (List.pairwise_map.2 graph.nodes.ascending) (fun unit listed => ?_)
    graph.represents_labels.idem graph.represents_labels.below
  rw [Table.mem_keys_iff] at listed ⊢
  rw [describes.contains_label, listed]

/-- The label of a component is its least unit. -/
theorem Describes.isLeast_part {label : UnitId} (listed : label ∈ graph.partLabels) :
    (graph.part label).IsLeast label := by
  rw [describes.partLabels_eq, List.mem_filter, Table.mem_keys_iff, decide_eq_true_eq] at listed
  refine ⟨contains_part_iff.2 listed, fun unit inside => ?_⟩
  obtain ⟨_, rfl⟩ := contains_part_iff.1 inside
  exact graph.represents_labels.below unit

/-- The components of a graph are its classes of connected units. -/
theorem Describes.splits : graph.Splits graph.components := by
  have linked : EqvGen graph.Precedes = Connected graph.edges := by
    unfold Connected
    simp only [mem_edges_iff]
    rfl
  have ascending : graph.partLabels.Pairwise fun left right => compare left right = .lt := by
    rw [describes.partLabels_eq]
    exact (List.pairwise_map.2 graph.nodes.ascending).filter _
  have each : ∀ {holds : Graph → Prop}, (∀ label ∈ graph.partLabels, holds (graph.part label)) →
      ∀ part ∈ graph.components, holds part := by
    intro holds parts part listed
    rw [components_eq] at listed
    obtain ⟨label, member, rfl⟩ := List.mem_map.1 listed
    exact parts label member
  have enumerates : ∀ label phase, (graph.part label).Enumerates
      (ofNodes.phaseUnits (graph.part label).nodes phase) phase :=
    fun label phase unit => contains_phaseUnits _ phase unit
  constructor
  case nonempty =>
    exact each fun label listed => ⟨label, (describes.isLeast_part listed).contains⟩
  case disjoint =>
    rw [components_eq, List.pairwise_map]
    refine ascending.imp fun {left right} less unit inside => ?_
    rw [← Bool.not_eq_true]
    intro also
    have same := (contains_part_iff.1 inside).2.symm.trans (contains_part_iff.1 also).2
    rw [same] at less
    simp at less
  case covers =>
    intro unit node
    rw [components_eq]
    simp only [List.mem_map, exists_exists_and_eq_and, find?_part, Option.filter_eq_some_iff,
      inPart_iff]
    constructor
    · exact fun found => ⟨_, mem_partLabels found, found, rfl⟩
    · rintro ⟨_, _, found, _⟩
      exact found
  case connected =>
    intro left right present also
    rw [linked, ← graph.represents_labels.same, components_eq]
    simp only [List.mem_map, exists_exists_and_eq_and, contains_part_iff]
    constructor
    · rintro ⟨_, _, ⟨_, rfl⟩, _, same⟩
      exact same.symm
    · intro same
      obtain ⟨node, found⟩ := Option.isSome_iff_exists.1 present
      exact ⟨_, mem_partLabels found, ⟨present, rfl⟩, also, same.symm⟩
  case ordered =>
    rw [components_eq, List.pairwise_map]
    refine ascending.imp_of_mem fun {left right} listed also less => ?_
    exact ⟨left, right, describes.isLeast_part listed, describes.isLeast_part also, less⟩
  case policy => exact each fun _ _ => rfl
  case ready => exact each fun label _ => enumerates label .ready
  case notReady => exact each fun label _ => enumerates label .notReady
  case processing => exact each fun label _ => enumerates label .processing
  case closed =>
    refine each fun label _ unit node found other neighbour => ?_
    have fits := (describes.part label).fits unit node found
    rw [fits.before, fits.after] at neighbour
    rw [Table.contains, (describes.part label).isSome_iff]
    rcases neighbour with calls | called
    · exact (describes.part label).callees calls
    · exact (describes.part label).callers called

end Described

/-! ## Along the edges -/

/-- The components of a graph, found in a forest that is grown along edges in the given
order. -/
def componentsAlong (graph : Graph) (edges : List (UnitId × UnitId)) : List Graph :=
  let forest := Forest.along graph edges
  (graph.nodes.keys.map forest.root).eraseDups.map fun root =>
    ofNodes graph.policy (graph.nodes.filter fun unit _ => forest.root unit = root)

/-- The order of the edges does not matter. -/
theorem componentsAlong_eq {edges : List (UnitId × UnitId)} (order : edges.Perm graph.edges) :
    graph.componentsAlong edges = graph.components := by
  unfold componentsAlong components
  simp only [Forest.root_along order]

namespace Traffic

/-- What concerns the units of one component. -/
def within (traffic : Traffic) (part : Graph) : Traffic where
  graph := part
  pool := traffic.pool.filter fun event => part.nodes.contains event.unit
  dispatched := traffic.dispatched.filter part.nodes.contains

/-- A component is under way as the whole graph is. -/
theorem Underway.part {registry : Registry} {phase : UnitId → Phase} {traffic : Traffic}
    (underway : Underway registry phase traffic) (label : UnitId) :
    Underway (registry.restrict (traffic.graph.inPart label)) phase
      (traffic.within (traffic.graph.part label)) := by
  have describes := underway.describes.part label
  have present : ∀ unit, (traffic.graph.part label).nodes.contains unit =
      ((registry.restrict (traffic.graph.inPart label)).method? unit).isSome :=
    fun unit => describes.isSome_iff unit
  have inside : ∀ unit,
      ((registry.restrict (traffic.graph.inPart label)).method? unit).isSome = true →
        (registry.method? unit).isSome = true ∧ traffic.graph.inPart label unit = true := by
    intro unit known
    obtain ⟨method, known⟩ := Option.isSome_iff_exists.1 known
    rw [Registry.method?_restrict, Option.filter_eq_some_iff] at known
    exact ⟨by rw [known.1]; rfl, known.2⟩
  constructor
  case describes =>
    refine describes.congr (fun unit other known => ?_) fun _ _ => rfl
    rw [calls_restrict_iff, and_iff_left (inside unit known).2]
  case settled =>
    intro unit other past calls
    exact underway.settled unit other past (calls_restrict_iff.1 calls).1
  case pool =>
    intro event
    simp only [within, List.mem_filter, underway.pool, present]
    constructor
    · rintro ⟨⟨shape, _, waiting, free⟩, known⟩
      exact ⟨shape, known, waiting, fun other calls => free other (calls_restrict_iff.1 calls).1⟩
    · rintro ⟨shape, known, waiting, free⟩
      refine ⟨⟨shape, (inside _ known).1, waiting, fun other calls => free other ?_⟩, known⟩
      exact calls_restrict_iff.2 ⟨calls, (inside _ known).2⟩
  case distinct => exact underway.distinct.sublist (List.filter_sublist.map _)
  case dispatched =>
    intro unit member
    exact underway.dispatched unit (List.mem_filter.1 member).1
  case once => exact underway.once.filter _

/-- Whatever has been done with the graph of a program, its components are the classes of
units that edges connect, in whatever order the edges are taken.  Each component can be
worked with on its own from there, and nothing that may be done is refused. -/
theorem splits_of_steps (program : Code.Program) {policy : Policy} {graph : Graph}
    {traffic : Traffic} (built : build (.ofProgram program) policy = .ok graph)
    (reached : ReflTransGen Step (start graph) traffic) :
    traffic.graph.Splits traffic.graph.components ∧
      (∀ part ∈ traffic.graph.components, ∀ later,
        ReflTransGen Step (traffic.within part) later → later.Orderly) ∧
      ∀ edges, edges.Perm traffic.graph.edges →
        traffic.graph.componentsAlong edges = traffic.graph.components := by
  have consistent := consistent_build (Registry.named_ofProgram program) built
  obtain ⟨phase, underway⟩ := (Underway.start consistent).steps reached
  refine ⟨underway.describes.splits, fun part listed later steps => ?_,
    fun edges order => componentsAlong_eq order⟩
  rw [components_eq] at listed
  obtain ⟨label, _, rfl⟩ := List.mem_map.1 listed
  obtain ⟨_, after⟩ := (underway.part label).steps steps
  exact after.orderly

/-- While the pier is at work, the method that calls itself is a component of its own. -/
theorem splits_crossing :
    ∃ graph traffic, build (.ofProgram pier) .unordered = .ok graph ∧
      ReflTransGen Step (start graph) traffic ∧
      (traffic.graph.components.map fun part =>
          (part.nodes.keys.map (·.member), part.processing.keys.map (·.member))) =
        [(["berth", "dock", "land", "moor", "tie"], ["dock"]), (["drift"], [])] ∧
      traffic.graph.Splits traffic.graph.components ∧
      traffic.graph.componentsAlong traffic.graph.edges.reverse = traffic.graph.components := by
  have shown : ((build (.ofProgram pier) .unordered).toOption.bind fun graph =>
      (follow crossing (start graph)).map fun traffic => traffic.graph.components.map fun part =>
        (part.nodes.keys.map (·.member), part.processing.keys.map (·.member))) =
      some [(["berth", "dock", "land", "moor", "tie"], ["dock"]), (["drift"], [])] := by
    decide +kernel
  cases built : build (.ofProgram pier) .unordered with
  | error error =>
      rw [built] at shown
      cases shown
  | ok graph =>
      rw [built] at shown
      obtain ⟨traffic, followed, parts⟩ := Option.map_eq_some_iff.1 shown
      have reached := steps_of_follow followed
      obtain ⟨splits, _, orders⟩ := splits_of_steps pier built reached
      exact ⟨graph, traffic, rfl, reached, parts, splits, orders _ (List.reverse_perm _)⟩

end Traffic

end Custody.Graph
