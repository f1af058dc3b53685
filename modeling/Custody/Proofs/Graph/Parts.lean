import Custody.Proofs.Graph.Connectivity
import Custody.Proofs.Graph.Consistency
import Mathlib.Data.List.Nodup

/-!
# The parts of a graph

Following an edge never leads from one component of a graph to another.  So each
component is the graph of a smaller registry, the one that has the methods of the
component only, and it stands as the units of the component that are done have left it.
-/

namespace Custody

theorem Table.find?_filter {κ α : Type} [Ord κ] [Std.LawfulEqOrd κ] (table : Table κ α)
    (keep : κ → α → Bool) (key : κ) :
    (table.filter keep).find? key = (table.find? key).filter (keep key) := by
  refine Option.ext fun value => ?_
  rw [find?_eq_some_iff, Option.filter_eq_some_iff, find?_eq_some_iff]
  exact List.mem_filter

theorem nodup_eraseDups {α : Type} [BEq α] [LawfulBEq α] (list : List α) :
    list.eraseDups.Nodup := by
  induction bound : list.length using Nat.strongRecOn generalizing list with
  | _ size ih =>
      cases list with
      | nil => simp
      | cons head rest =>
          rw [List.eraseDups_cons, List.nodup_cons, List.mem_eraseDups]
          refine ⟨by simp, ih _ ?_ _ rfl⟩
          rw [← bound, List.length_cons]
          exact Nat.lt_succ_of_le (List.length_filter_le _ _)

/-! ## Registries with fewer methods -/

namespace Registry

variable (registry : Registry) (keep : UnitId → Bool)

/-- The registry with the methods that pass a test. -/
def restrict : Registry :=
  ⟨registry.classes.map fun name owner =>
    { owner with methods := owner.methods.filter fun member _ => keep ⟨name, member⟩ }⟩

@[simp] theorem method?_restrict (unit : UnitId) :
    (registry.restrict keep).method? unit = (registry.method? unit).filter fun _ => keep unit := by
  simp only [method?, restrict, Table.find?_map]
  cases registry.classes.find? unit.owner with
  | none => rfl
  | some owner => exact Table.find?_filter _ _ _

@[simp] theorem fieldType_restrict (owner field : String) :
    (registry.restrict keep).fieldType owner field = registry.fieldType owner field := by
  simp only [fieldType, lookup, restrict, Table.find?_map]
  cases registry.classes.find? owner <;> rfl

@[simp] theorem fieldChainType_restrict (type : String) (fields : List String) :
    (registry.restrict keep).fieldChainType type fields =
      registry.fieldChainType type fields := by
  induction fields generalizing type with
  | nil => rfl
  | cons field rest ih => simp only [fieldChainType, fieldType_restrict, ih]

@[simp] theorem qualifierType_restrict (method : Method) (qualifier : String) :
    (registry.restrict keep).qualifierType method qualifier =
      registry.qualifierType method qualifier := by
  simp only [qualifierType, firstType, fieldType_restrict, fieldChainType_restrict]

@[simp] theorem callee_restrict (method : Method) (node : Code.Node) :
    node.callee (registry.restrict keep) method = node.callee registry method := by
  cases node <;> simp only [Code.Node.callee, qualifierType_restrict]

end Registry

namespace Graph

variable {registry : Registry} {graph : Graph} {keep : UnitId → Bool} {unit other : UnitId}

@[simp] theorem calls_restrict_iff :
    Calls (registry.restrict keep) unit other ↔ Calls registry unit other ∧ keep unit = true := by
  unfold Calls
  simp only [Registry.method?_restrict, Registry.callee_restrict, Option.filter_eq_some_iff]
  constructor
  · intro ⟨method, ⟨known, kept⟩, site⟩
    exact ⟨⟨method, known, site⟩, kept⟩
  · intro ⟨⟨method, known, site⟩, kept⟩
    exact ⟨method, ⟨known, kept⟩, site⟩

theorem settled_restrict_iff {done : List UnitId} (kept : keep unit = true) :
    Settled (registry.restrict keep) done unit ↔ Settled registry done unit := by
  simp only [Settled, calls_restrict_iff, kept, and_true]

theorem phaseAfter_restrict {done : List UnitId} (kept : keep unit = true) :
    phaseAfter (registry.restrict keep) done unit = phaseAfter registry done unit := by
  have settled : Settled (registry.restrict keep) done unit ↔ Settled registry done unit :=
    settled_restrict_iff kept
  unfold phaseAfter
  grind

/-- Following a call leads to a unit with the same label. -/
theorem Describes.label_eq_of_calls {waits : UnitId → UnitId → Prop} {phase : UnitId → Phase}
    (describes : graph.Describes registry (Calls registry) waits phase)
    (calls : Calls registry unit other) : graph.labels.of unit = graph.labels.of other := by
  obtain ⟨node, found, fits⟩ := describes.exists_node (describes.callers calls)
  exact label_eq_of_before found ((fits.before other).2 calls)

/-! ## Parts -/

/-- Does the unit have the label? -/
def inPart (graph : Graph) (label unit : UnitId) : Bool := graph.labels.of unit = label

@[simp] theorem inPart_iff {label : UnitId} :
    graph.inPart label unit = true ↔ graph.labels.of unit = label := decide_eq_true_iff

/-- The units with a label. -/
def part (graph : Graph) (label : UnitId) : Graph :=
  ofNodes graph.policy (graph.nodes.filter fun unit _ => graph.inPart label unit)

/-- The labels of the components, in the order of their first units. -/
def partLabels (graph : Graph) : List UnitId := (graph.nodes.keys.map graph.labels.of).eraseDups

theorem components_eq (graph : Graph) : graph.components = graph.partLabels.map graph.part := rfl

theorem nodup_partLabels (graph : Graph) : graph.partLabels.Nodup := nodup_eraseDups _

theorem mem_partLabels {node : GraphNode} (found : graph.nodes.find? unit = some node) :
    graph.labels.of unit ∈ graph.partLabels := by
  rw [partLabels, List.mem_eraseDups]
  refine List.mem_map.2 ⟨unit, Table.mem_keys_iff.2 ?_, rfl⟩
  rw [Table.contains, found]
  rfl

theorem contains_phaseUnits (nodes : Table UnitId GraphNode) (phase : Phase) (unit : UnitId) :
    (ofNodes.phaseUnits nodes phase).contains unit = true ↔
      ∃ node, nodes.find? unit = some node ∧ node.phase = phase := by
  rw [ofNodes.phaseUnits, Table.contains, Table.find?_map, Option.isSome_map, Table.find?_filter,
    Option.isSome_iff_exists]
  simp only [Option.filter_eq_some_iff, decide_eq_true_eq]

theorem find?_part (graph : Graph) (label unit : UnitId) :
    (graph.part label).nodes.find? unit =
      (graph.nodes.find? unit).filter fun _ => graph.inPart label unit :=
  Table.find?_filter _ _ _

theorem contains_part_iff {label : UnitId} : (graph.part label).nodes.contains unit = true ↔
    graph.nodes.contains unit = true ∧ graph.labels.of unit = label := by
  simp only [Table.contains, Option.isSome_iff_exists, find?_part, Option.filter_eq_some_iff,
    inPart_iff, exists_and_right]

/-- A part of a graph says about its units what the graph says about them. -/
theorem Describes.part {waits : UnitId → UnitId → Prop} {phase : UnitId → Phase}
    (describes : graph.Describes registry (Calls registry) waits phase) (label : UnitId) :
    (graph.part label).Describes (registry.restrict (graph.inPart label))
      (Calls (registry.restrict (graph.inPart label))) waits phase := by
  have closed : ∀ {unit other}, Calls registry unit other →
      (graph.inPart label unit = true ↔ graph.inPart label other = true) := by
    intro unit other calls
    rw [inPart_iff, inPart_iff, describes.label_eq_of_calls calls]
  have fits : ∀ unit node, (graph.part label).nodes.find? unit = some node →
      node.Fits (Calls (registry.restrict (graph.inPart label))) waits phase unit := by
    intro unit node found
    rw [find?_part, Option.filter_eq_some_iff] at found
    obtain ⟨found, kept⟩ := found
    have fits := describes.fits unit node found
    refine ⟨fun other => ?_, fun other => ?_, fits.waitFor, fits.phase⟩
    · rw [fits.before, calls_restrict_iff, and_iff_left kept]
    · rw [fits.after, calls_restrict_iff]
      exact ⟨fun calls => ⟨calls, (closed calls).2 kept⟩, fun both => both.1⟩
  have units : ∀ unit, ((graph.part label).nodes.find? unit).map (·.method) =
      ((registry.restrict (graph.inPart label)).method? unit).map some := by
    intro unit
    have units := describes.units unit
    rw [find?_part, Registry.method?_restrict]
    cases found : graph.nodes.find? unit with
    | none =>
        rw [found] at units
        rw [Option.map_eq_none_iff.1 units.symm]
        rfl
    | some node =>
        obtain ⟨method, known, same⟩ := describes.method_of_find? found
        rw [known]
        cases graph.inPart label unit with
        | false => rfl
        | true => exact congrArg some same
  have listed : ∀ (target : Phase) (unit : UnitId),
      (ofNodes.phaseUnits (graph.part label).nodes target).contains unit = true ↔
        ((registry.restrict (graph.inPart label)).method? unit).isSome = true ∧
          phase unit = target := by
    intro target unit
    have same := congrArg Option.isSome (units unit)
    rw [Option.isSome_map, Option.isSome_map] at same
    rw [contains_phaseUnits, ← same]
    cases found : (graph.part label).nodes.find? unit with
    | none => simp
    | some node => simp [(fits unit node found).phase]
  refine ⟨units, fits, fun calls => ?_, fun calls => ?_, listed .ready, listed .notReady,
    listed .processing⟩
  · obtain ⟨calls, kept⟩ := calls_restrict_iff.1 calls
    obtain ⟨method, known⟩ := Option.isSome_iff_exists.1 (describes.callers calls)
    simp [known, kept]
  · obtain ⟨calls, kept⟩ := calls_restrict_iff.1 calls
    obtain ⟨method, known⟩ := Option.isSome_iff_exists.1 (describes.callees calls)
    simp [known, (closed calls).1 kept]

/-- A part of a graph stands as the graph does. -/
theorem Consistent.part {done : List UnitId} (consistent : graph.Consistent registry done)
    (label : UnitId) :
    (graph.part label).Consistent (registry.restrict (graph.inPart label)) done := by
  have inside : ∀ unit, ((registry.restrict (graph.inPart label)).method? unit).isSome = true →
      graph.inPart label unit = true := by
    intro unit present
    obtain ⟨method, known⟩ := Option.isSome_iff_exists.1 present
    rw [Registry.method?_restrict, Option.filter_eq_some_iff] at known
    exact known.2
  refine (Describes.part consistent label).congr (fun unit other present => ?_) fun unit present => ?_
  · rw [calls_restrict_iff, and_iff_left (inside unit present)]
  · rw [phaseAfter_restrict (inside unit present)]

end Graph

end Custody
