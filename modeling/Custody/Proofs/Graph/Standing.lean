import Custody.Graph.Dispatch
import Custody.Proofs.Data.Ending

/-!
# How the units of a graph stand

A graph says which units there are, which of them call which, for which of these
each still waits, and how far each has come.  `Graph.Describes` compares this with
relations on units, and the operations of a graph are described by what they do to
the relations.  The lists of a graph follow from the phases of its units, so none
of the operations ever finds them out of step.
-/

namespace Custody

/-- An entry of a table in which one value has been changed. -/
theorem Table.find?_modify_eq_some {κ α : Type} [Ord κ] [Std.LawfulEqOrd κ] {table : Table κ α}
    {key other : κ} {change : α → α} {value : α}
    (found : (table.modify key change).find? other = some value) :
    (other = key ∧ ∃ old, table.find? key = some old ∧ change old = value) ∨
      (other ≠ key ∧ table.find? other = some value) := by
  rw [find?_modify] at found
  split at found
  next here =>
    cases Std.LawfulEqCmp.eq_of_compare here
    exact .inl ⟨rfl, Option.map_eq_some_iff.1 found⟩
  next apart =>
    refine .inr ⟨?_, found⟩
    rintro rfl
    simp at apart

namespace KeySet

variable {κ : Type} [Ord κ] [Std.LawfulEqOrd κ] {set : KeySet κ} {key other : κ}

theorem contains_erase :
    (set.erase key).contains other = true ↔ set.contains other = true ∧ other ≠ key := by
  by_cases same : other = key
  · simp [Table.contains, same]
  · simp [Table.contains, Table.find?_erase, same, Ne.symm same]

theorem isEmpty_iff : set.isEmpty = true ↔ ∀ key, set.contains key = false := by
  simp only [Table.isEmpty, List.isEmpty_iff, ← Bool.not_eq_true, ← Table.mem_keys_iff]
  constructor
  · intro none key
    simp [Table.keys, none]
  · intro absent
    exact List.map_eq_nil_iff.1 (List.eq_nil_iff_forall_not_mem.2 absent)

theorem ext_contains [Std.TransOrd κ] {others : KeySet κ}
    (same : ∀ key, set.contains key = true ↔ others.contains key = true) : set = others := by
  refine Table.ext fun key => ?_
  have listed := same key
  simp only [Table.contains, Option.isSome_iff_exists] at listed
  cases found : set.find? key with
  | some value =>
      obtain ⟨value, also⟩ := listed.1 ⟨_, found⟩
      exact also.symm
  | none =>
      cases also : others.find? key with
      | none => rfl
      | some value =>
          obtain ⟨_, impossible⟩ := listed.2 ⟨_, also⟩
          rw [found] at impossible
          cases impossible

end KeySet

/-- A node says the same as the relations. -/
structure GraphNode.Fits (calls waits : UnitId → UnitId → Prop) (phase : UnitId → Phase)
    (unit : UnitId) (node : GraphNode) : Prop where
  before : ∀ other, node.before.contains other = true ↔ calls unit other
  after : ∀ other, node.after.contains other = true ↔ calls other unit
  waitFor : ∀ other, node.waitFor.contains other = true ↔ waits unit other
  phase : node.phase = phase unit

/-- Changing a node does not change which method it stands for. -/
theorem GraphNode.method_modify (change : GraphNode → GraphNode)
    (kept : ∀ node, (change node).method = node.method) (nodes : Table UnitId GraphNode)
    (unit other : UnitId) :
    ((nodes.modify unit change).find? other).map (·.method) =
      (nodes.find? other).map (·.method) := by
  rw [Table.find?_modify]
  split
  · simp only [Option.map_map, Function.comp_def, kept]
  · rfl

namespace Graph

/-- Under any policy the first of the ready units is dispatched. -/
theorem nextReady_eq (graph : Graph) :
    nextReady graph =
      match graph.ready.keys with
      | [] => .ok none graph
      | unit :: _ =>
          match dispatch unit graph with
          | .ok () graph => .ok (some unit) graph
          | .error error graph => .error error graph := by
  have first : graph.select? = graph.ready.keys.head? := by
    unfold select?
    split <;> rfl
  unfold nextReady
  rw [first]
  cases graph.ready.keys <;> rfl

/-- The units of a graph are the methods of a registry, and the graph says the same
about them as the relations. -/
structure Describes (registry : Registry) (calls waits : UnitId → UnitId → Prop)
    (phase : UnitId → Phase) (graph : Graph) : Prop where
  units : ∀ unit, (graph.nodes.find? unit).map (·.method) = (registry.method? unit).map some
  fits : ∀ unit node, graph.nodes.find? unit = some node → node.Fits calls waits phase unit
  callers : ∀ {unit other}, calls unit other → (registry.method? unit).isSome = true
  callees : ∀ {unit other}, calls unit other → (registry.method? other).isSome = true
  ready : ∀ unit, graph.ready.contains unit = true ↔
    (registry.method? unit).isSome = true ∧ phase unit = .ready
  notReady : ∀ unit, graph.notReady.contains unit = true ↔
    (registry.method? unit).isSome = true ∧ phase unit = .notReady
  processing : ∀ unit, graph.processing.contains unit = true ↔
    (registry.method? unit).isSome = true ∧ phase unit = .processing

namespace Describes

variable {registry : Registry} {calls waits : UnitId → UnitId → Prop} {phase : UnitId → Phase}
variable {graph : Graph} {unit : UnitId}

theorem isSome_iff (describes : graph.Describes registry calls waits phase) (unit : UnitId) :
    (graph.nodes.find? unit).isSome = (registry.method? unit).isSome := by
  have same := congrArg Option.isSome (describes.units unit)
  simpa using same

theorem exists_node (describes : graph.Describes registry calls waits phase)
    (present : (registry.method? unit).isSome = true) :
    ∃ node, graph.nodes.find? unit = some node ∧ node.Fits calls waits phase unit := by
  rw [← describes.isSome_iff] at present
  obtain ⟨node, found⟩ := Option.isSome_iff_exists.1 present
  exact ⟨node, found, describes.fits unit node found⟩

theorem method_of_find? (describes : graph.Describes registry calls waits phase)
    {node : GraphNode} (found : graph.nodes.find? unit = some node) :
    ∃ method, registry.method? unit = some method ∧ node.method = some method := by
  have same := describes.units unit
  rw [found] at same
  cases known : registry.method? unit with
  | none =>
      rw [known] at same
      cases same
  | some method =>
      rw [known] at same
      exact ⟨method, rfl, Option.some.inj same⟩

/-- Only what is said about units of the graph matters. -/
theorem congr (describes : graph.Describes registry calls waits phase)
    {others : UnitId → UnitId → Prop} {later : UnitId → Phase}
    (sameWaits : ∀ unit other, (registry.method? unit).isSome = true →
      (waits unit other ↔ others unit other))
    (samePhase : ∀ unit, (registry.method? unit).isSome = true → phase unit = later unit) :
    graph.Describes registry calls others later where
  units := describes.units
  fits unit node found := by
    have present : (registry.method? unit).isSome = true := by
      rw [← describes.isSome_iff, found]
      rfl
    have fits := describes.fits unit node found
    exact ⟨fits.before, fits.after,
      fun other => (fits.waitFor other).trans (sameWaits unit other present),
      fits.phase.trans (samePhase unit present)⟩
  callers := describes.callers
  callees := describes.callees
  ready unit := (describes.ready unit).trans
    (and_congr_right fun present => by rw [samePhase unit present])
  notReady unit := (describes.notReady unit).trans
    (and_congr_right fun present => by rw [samePhase unit present])
  processing unit := (describes.processing unit).trans
    (and_congr_right fun present => by rw [samePhase unit present])

/-- A change of nodes that keeps the method of each changes what is said about the
units, and nothing else. -/
theorem withNodes (describes : graph.Describes registry calls waits phase)
    {nodes : Table UnitId GraphNode} {links others : UnitId → UnitId → Prop}
    (units : ∀ unit, (nodes.find? unit).map (·.method) =
      (graph.nodes.find? unit).map (·.method))
    (fits : ∀ unit node, nodes.find? unit = some node → node.Fits links others phase unit)
    (callers : ∀ {unit other}, links unit other → (registry.method? unit).isSome = true)
    (callees : ∀ {unit other}, links unit other → (registry.method? other).isSome = true) :
    { graph with nodes }.Describes registry links others phase where
  units unit := (units unit).trans (describes.units unit)
  fits := fits
  callers := callers
  callees := callees
  ready := describes.ready
  notReady := describes.notReady
  processing := describes.processing

/-- Graphs that say the same have the same units stuck. -/
theorem stuck?_eq {other : Graph} (describes : graph.Describes registry calls waits phase)
    (also : other.Describes registry calls waits phase) : graph.stuck? = other.stuck? := by
  have ready : graph.ready = other.ready :=
    KeySet.ext_contains fun unit => (describes.ready unit).trans (also.ready unit).symm
  have notReady : graph.notReady = other.notReady :=
    KeySet.ext_contains fun unit => (describes.notReady unit).trans (also.notReady unit).symm
  have processing : graph.processing = other.processing :=
    KeySet.ext_contains fun unit => (describes.processing unit).trans (also.processing unit).symm
  have waiting : ∀ unit ∈ other.notReady.toList,
      (graph.nodes.find? unit).map (·.waitFor) = (other.nodes.find? unit).map (·.waitFor) := by
    intro unit listed
    have present := ((also.notReady unit).1 (Table.mem_keys_iff.1 listed)).1
    obtain ⟨node, found, fits⟩ := describes.exists_node present
    obtain ⟨twin, seen, matching⟩ := also.exists_node present
    rw [found, seen]
    exact congrArg some (KeySet.ext_contains fun third =>
      (fits.waitFor third).trans (matching.waitFor third).symm)
  have stuck : graph.notReady.toList.map (fun unit =>
      (⟨unit, ((graph.nodes.find? unit).map (·.waitFor.toList)).getD []⟩ : StuckUnit)) =
        other.notReady.toList.map fun unit =>
          ⟨unit, ((other.nodes.find? unit).map (·.waitFor.toList)).getD []⟩ := by
    rw [notReady]
    refine List.map_congr_left fun unit listed => ?_
    have same := congrArg (Option.map KeySet.toList) (waiting unit listed)
    rw [Option.map_map, Option.map_map] at same
    exact congrArg (fun units : Option (List UnitId) => StuckUnit.mk unit (units.getD [])) same
  rw [stuck?, stuck?, stuck, ready, notReady, processing]

/-! ## Changing phases -/

/-- A unit is in another phase now. -/
def moved (phase : UnitId → Phase) (unit : UnitId) (target : Phase) (other : UnitId) : Phase :=
  if other = unit then target else phase other

/-- A unit that comes into its next phase moves from one list to the next. -/
theorem enter (describes : graph.Describes registry calls waits phase)
    (present : (registry.method? unit).isSome = true) {target : Phase}
    (follows : (phase unit).next? = some target) :
    (graph.enter unit target).Describes registry calls waits (moved phase unit target) := by
  have units := GraphNode.method_modify (fun node => { node with phase := target })
    (fun _ => rfl) graph.nodes unit
  have fits : ∀ other node, (graph.nodes.modify unit fun node =>
      { node with phase := target }).find? other = some node →
        node.Fits calls waits (moved phase unit target) other := by
    intro other node found
    rcases Table.find?_modify_eq_some found with ⟨rfl, old, before, rfl⟩ | ⟨apart, before⟩
    · have fits := describes.fits other old before
      exact ⟨fits.before, fits.after, fits.waitFor, by simp [moved]⟩
    · have fits := describes.fits other node before
      exact ⟨fits.before, fits.after, fits.waitFor, by simp [moved, apart, fits.phase]⟩
  -- Which list the unit is taken from and which it is put on depends on the phase.
  cases here : phase unit with
  | notReady =>
      rw [here] at follows
      cases follows
      refine ⟨fun other => (units other).trans (describes.units other), fits, describes.callers,
        describes.callees, fun other => ?_, fun other => ?_, fun other => ?_⟩
      · simp only [Graph.enter, KeySet.contains_add, describes.ready, moved]
        grind
      · simp only [Graph.enter, KeySet.contains_erase, describes.notReady, moved]
        grind
      · simp only [Graph.enter, describes.processing, moved]
        grind
  | ready =>
      rw [here] at follows
      cases follows
      refine ⟨fun other => (units other).trans (describes.units other), fits, describes.callers,
        describes.callees, fun other => ?_, fun other => ?_, fun other => ?_⟩
      · simp only [Graph.enter, KeySet.contains_erase, describes.ready, moved]
        grind
      · simp only [Graph.enter, describes.notReady, moved]
        grind
      · simp only [Graph.enter, KeySet.contains_add, describes.processing, moved]
        grind
  | processing =>
      rw [here] at follows
      cases follows
      refine ⟨fun other => (units other).trans (describes.units other), fits, describes.callers,
        describes.callees, fun other => ?_, fun other => ?_, fun other => ?_⟩
      · simp only [Graph.enter, describes.ready, moved]
        grind
      · simp only [Graph.enter, describes.notReady, moved]
        grind
      · simp only [Graph.enter, KeySet.contains_erase, describes.processing, moved]
        grind
  | processed =>
      rw [here] at follows
      cases follows

theorem apply (describes : graph.Describes registry calls waits phase)
    (present : (registry.method? unit).isSome = true) {target : Phase}
    (follows : (phase unit).next? = some target) :
    Graph.apply ⟨unit, phase unit, target⟩ graph = .ok () (graph.enter unit target) := by
  obtain ⟨node, found, fits⟩ := describes.exists_node present
  simp only [Graph.apply, found, fits.phase, follows, decide_true, Bool.and_self, ↓reduceIte]

/-- Several units that are not ready become ready. -/
theorem applyAll (events : List Event) (describes : graph.Describes registry calls waits phase)
    (distinct : (events.map (·.unit)).Nodup)
    (waking : ∀ event ∈ events, event = ⟨event.unit, .notReady, .ready⟩ ∧
      (registry.method? event.unit).isSome = true ∧ phase event.unit = .notReady) :
    ∃ next, Graph.applyAll events graph = .ok () next ∧
      next.Describes registry calls waits
        fun unit => if unit ∈ events.map (·.unit) then .ready else phase unit := by
  induction events generalizing graph phase with
  | nil => exact ⟨graph, rfl, by simpa using describes⟩
  | cons event rest ih =>
      obtain ⟨shape, present, here⟩ := waking event (.head _)
      obtain ⟨fresh, apart⟩ := List.nodup_cons.1 distinct
      have follows : (phase event.unit).next? = some .ready := by
        rw [here]
        rfl
      have first := describes.apply present follows
      rw [here, ← shape] at first
      have entered := describes.enter present follows
      obtain ⟨next, applied, last⟩ := ih entered apart fun other member => by
        obtain ⟨shape, present, still⟩ := waking other (.tail _ member)
        have different : other.unit ≠ event.unit := fun same =>
          fresh (List.mem_map.2 ⟨other, member, same⟩)
        exact ⟨shape, present, by simpa [moved, different] using still⟩
      refine ⟨next, ?_, last.congr (fun _ _ _ => Iff.rfl) fun unit _ => ?_⟩
      · rw [Graph.applyAll, bind_of_ok first, applied]
      · simp only [moved, List.map_cons, List.mem_cons]
        grind

/-! ## Telling units that another is done -/

/-- A unit that is told does not wait for the other one any more. -/
theorem update (describes : graph.Describes registry calls waits phase) (unit done : UnitId) :
    { graph with
      nodes := graph.nodes.modify unit fun node => (node.update unit done).2 }.Describes registry
      calls (fun told other => waits told other ∧ ¬(told = unit ∧ other = done)) phase := by
  have kept : ∀ node : GraphNode, (node.update unit done).2 =
      { node with waitFor := (node.update unit done).2.waitFor } := by
    intro node
    unfold GraphNode.update
    split <;> rfl
  have shrunk : ∀ (node : GraphNode) (other : UnitId),
      (node.update unit done).2.waitFor.contains other = true ↔
        node.waitFor.contains other = true ∧ other ≠ done := by
    intro node other
    unfold GraphNode.update
    split
    next => exact KeySet.contains_erase
    next absent =>
      constructor
      · intro listed
        refine ⟨listed, ?_⟩
        rintro rfl
        exact absent listed
      · exact fun listed => listed.1
  refine describes.withNodes
    (GraphNode.method_modify _ (fun node => by rw [kept]) graph.nodes unit)
    (fun other node found => ?_) describes.callers describes.callees
  rcases Table.find?_modify_eq_some found with ⟨rfl, old, before, rfl⟩ | ⟨apart, before⟩
  · have fits := describes.fits other old before
    rw [kept]
    refine ⟨fits.before, fits.after, fun third => ?_, fits.phase⟩
    rw [shrunk, fits.waitFor]
    grind
  · have fits := describes.fits other node before
    exact ⟨fits.before, fits.after, fun third => by rw [fits.waitFor]; grind, fits.phase⟩

/-- A unit that is told wants to become ready if it waited for the other one only. -/
theorem update_eq_some_iff (describes : graph.Describes registry calls waits phase) {node : GraphNode}
    (found : graph.nodes.find? unit = some node) (done : UnitId) (event : Event) :
    (node.update unit done).1 = some event ↔
      event = ⟨unit, .notReady, .ready⟩ ∧ phase unit = .notReady ∧ waits unit done ∧
        ∀ other, waits unit other → other = done := by
  have fits := describes.fits unit node found
  unfold GraphNode.update
  split
  next listed =>
    have wakes : (node.phase = .notReady && (node.waitFor.erase done).isEmpty) = true ↔
        phase unit = .notReady ∧ ∀ other, waits unit other → other = done := by
      rw [Bool.and_eq_true, KeySet.isEmpty_iff, decide_eq_true_eq, fits.phase]
      simp only [← Bool.not_eq_true, KeySet.contains_erase, fits.waitFor, not_and, ne_eq,
        Decidable.not_not]
    dsimp only [GraphNode.wakeUp?]
    split
    next wants =>
      obtain ⟨idle, alone⟩ := wakes.1 wants
      constructor
      · rintro ⟨⟩
        exact ⟨rfl, idle, (fits.waitFor done).1 listed, alone⟩
      · rintro ⟨rfl, _⟩
        rfl
    next busy =>
      constructor
      · rintro ⟨⟩
      · rintro ⟨_, idle, _, alone⟩
        exact absurd (wakes.2 ⟨idle, alone⟩) busy
  next absent =>
    have absent : ¬waits unit done := fun waiting => absent ((fits.waitFor done).2 waiting)
    simp [absent]

/-- The units that come after a finished one are told. -/
theorem notify (done : UnitId) (units : List UnitId)
    (describes : graph.Describes registry calls waits phase) (distinct : units.Nodup)
    (present : ∀ unit ∈ units, (registry.method? unit).isSome = true) :
    ∃ events next, Graph.notify done units graph = .ok events next ∧
      next.Describes registry calls
        (fun unit other => waits unit other ∧ ¬(unit ∈ units ∧ other = done)) phase ∧
      (events.map (·.unit)).Sublist units ∧
      ∀ event, event ∈ events ↔ event.unit ∈ units ∧ event = ⟨event.unit, .notReady, .ready⟩ ∧
        phase event.unit = .notReady ∧ waits event.unit done ∧
        ∀ other, waits event.unit other → other = done := by
  induction units generalizing graph waits with
  | nil => exact ⟨[], graph, rfl, by simpa using describes, .slnil, by simp⟩
  | cons unit rest ih =>
      obtain ⟨fresh, apart⟩ := List.nodup_cons.1 distinct
      obtain ⟨node, found, fits⟩ := describes.exists_node (present unit (.head _))
      obtain ⟨events, next, told, last, within, listed⟩ := ih (describes.update unit done) apart
        fun other member => present other (.tail _ member)
      refine ⟨(node.update unit done).1.toList ++ events, next, ?_, ?_, ?_, fun event => ?_⟩
      · simp only [Graph.notify, found, told]
      · refine last.congr (fun other third _ => ?_) fun _ _ => rfl
        simp only [List.mem_cons]
        grind
      · rw [List.map_append]
        have woken := describes.update_eq_some_iff found done
        cases first : (node.update unit done).1 with
        | none => exact within.cons unit
        | some event =>
            have shape := ((woken event).1 first).1
            rw [shape]
            exact within.cons_cons unit
      · rw [List.mem_append, Option.mem_toList, describes.update_eq_some_iff found, listed]
        simp only [List.mem_cons]
        constructor
        · rintro (⟨rfl, rest⟩ | ⟨member, shape, rest⟩)
          · exact ⟨.inl rfl, rfl, rest⟩
          · have different : event.unit ≠ unit := fun same => fresh (same ▸ member)
            refine ⟨.inr member, shape, rest.1, rest.2.1.1, fun other waiting => ?_⟩
            exact rest.2.2 other ⟨waiting, fun both => different both.1⟩
        · rintro ⟨same | member, shape, rest⟩
          · refine .inl ⟨?_, ?_⟩
            · rw [shape, same]
            · rw [← same]
              exact rest
          · have different : event.unit ≠ unit := fun same => fresh (same ▸ member)
            refine .inr ⟨member, shape, rest.1, ⟨rest.2.1, fun both => different both.1⟩, ?_⟩
            exact fun other waiting => rest.2.2 other waiting.1

/-- A unit in processing can be finished, and the units that waited for it alone want
to become ready. -/
theorem finish (describes : graph.Describes registry calls waits phase)
    (present : (registry.method? unit).isSome = true) (here : phase unit = .processing) :
    ∃ events told, Graph.finish unit graph = .ok events told ∧
      told.Describes registry calls
        (fun other third => waits other third ∧ ¬(calls other unit ∧ third = unit))
        (moved phase unit .processed) ∧
      (events.map (·.unit)).Nodup ∧
      ∀ event, event ∈ events ↔ event = ⟨event.unit, .notReady, .ready⟩ ∧
        calls event.unit unit ∧ event.unit ≠ unit ∧ phase event.unit = .notReady ∧
        waits event.unit unit ∧ ∀ third, waits event.unit third → third = unit := by
  have follows : (phase unit).next? = some .processed := by
    rw [here]
    rfl
  have processed := describes.apply present follows
  have last := describes.enter present follows
  rw [here] at processed
  obtain ⟨node, found, fits⟩ := last.exists_node present
  have listed : ∀ other, other ∈ node.after.toList ↔ calls other unit :=
    fun other => Table.mem_keys_iff.trans (fits.after other)
  obtain ⟨events, told, notified, described, within, wakes⟩ := last.notify unit node.after.toList
    (Table.nodup_keys node.after) fun other member => last.callers ((listed other).1 member)
  refine ⟨events, told, ?_, ?_, within.nodup (Table.nodup_keys _), fun event => ?_⟩
  · simp only [Graph.finish, processed, found, notified]
  · refine described.congr (fun other third _ => ?_) fun _ _ => rfl
    rw [listed]
  · have idle : moved phase unit .processed event.unit = .notReady ↔
        event.unit ≠ unit ∧ phase event.unit = .notReady := by
      simp only [moved]
      grind
    rw [wakes, listed, idle]
    grind

/-- Once what follows from it has been applied too, the units that waited for it alone
are ready. -/
theorem finish_applyAll (describes : graph.Describes registry calls waits phase)
    (present : (registry.method? unit).isSome = true) (here : phase unit = .processing) :
    ∃ events told next, ∃ woken : List UnitId, Graph.finish unit graph = .ok events told ∧
      Graph.applyAll events told = .ok () next ∧
      (∀ other, other ∈ woken ↔ calls other unit ∧ other ≠ unit ∧ phase other = .notReady ∧
        waits other unit ∧ ∀ third, waits other third → third = unit) ∧
      next.Describes registry calls
        (fun other third => waits other third ∧ ¬(calls other unit ∧ third = unit))
        fun other => if other ∈ woken then .ready else moved phase unit .processed other := by
  obtain ⟨events, told, finished, described, distinct, wakes⟩ := describes.finish present here
  obtain ⟨next, applied, final⟩ := described.applyAll events distinct fun event member => by
    obtain ⟨shape, before, apart, idle, _⟩ := (wakes event).1 member
    exact ⟨shape, describes.callers before, by simpa [moved, apart] using idle⟩
  refine ⟨events, told, next, events.map (·.unit), finished, applied, fun other => ?_, final⟩
  constructor
  · intro member
    obtain ⟨event, among, rfl⟩ := List.mem_map.1 member
    exact ((wakes event).1 among).2
  · intro waiting
    exact List.mem_map.2 ⟨⟨other, .notReady, .ready⟩, (wakes _).2 ⟨rfl, waiting⟩, rfl⟩

end Describes

end Graph

end Custody
