import Custody.Proofs.Graph.Building
import Mathlib.Data.List.Nodup
import Mathlib.Logic.Relation

/-!
# Dispatching in any order

Whoever works with a graph may dispatch any unit that is ready, finish any of the
units that are in processing, however many there are, and apply the events that a
finished unit returns at any later time.  The events that wait to be applied form a
pool.

Whatever is done in whatever order, the lists of the graph are those of the phases, a
unit waits for exactly those units it depends on that are not processed, and no unit
leaves the first phase before all of these are.  A unit that could become ready has
exactly one event in the pool, so it is neither forgotten nor made ready twice, and
nothing that may be done is ever refused.
-/

namespace Custody.Graph

open Relation

/-- A graph at work, with the events that are still to be applied and the units that
have been dispatched, the last one first. -/
structure Traffic where
  graph : Graph
  pool : List Event
  dispatched : List UnitId

/-- What can be done with a graph. -/
inductive Move where
  | dispatch (unit : UnitId)
  | finish (unit : UnitId)
  | apply (event : Event)

namespace Traffic

/-- Nothing has been done with a graph. -/
def start (graph : Graph) : Traffic := ⟨graph, [], []⟩

/-- Ready units may be dispatched, units in processing finished, and events of the
pool applied. -/
def Allows (traffic : Traffic) : Move → Prop
  | .dispatch unit => traffic.graph.ready.contains unit = true
  | .finish unit => (traffic.graph.nodes.find? unit).map (·.phase) = some .processing
  | .apply event => event ∈ traffic.pool

instance (traffic : Traffic) : (move : Move) → Decidable (traffic.Allows move)
  | .dispatch unit => inferInstanceAs (Decidable (traffic.graph.ready.contains unit = true))
  | .finish unit =>
      inferInstanceAs (Decidable ((traffic.graph.nodes.find? unit).map (·.phase) = some .processing))
  | .apply event => inferInstanceAs (Decidable (event ∈ traffic.pool))

/-- Make a move.  The events of a finished unit go into the pool, and an event that is
applied is taken out. -/
def make (traffic : Traffic) : Move → Except Error Traffic
  | .dispatch unit =>
      match Graph.dispatch unit traffic.graph with
      | .ok () graph => .ok { traffic with graph, dispatched := unit :: traffic.dispatched }
      | .error error _ => .error error
  | .finish unit =>
      match Graph.finish unit traffic.graph with
      | .ok events graph => .ok { traffic with graph, pool := traffic.pool ++ events }
      | .error error _ => .error error
  | .apply event =>
      match Graph.apply event traffic.graph with
      | .ok () graph => .ok { traffic with graph, pool := traffic.pool.erase event }
      | .error error _ => .error error

/-- One move that is allowed. -/
def Step (traffic next : Traffic) : Prop :=
  ∃ move, traffic.Allows move ∧ traffic.make move = .ok next

/-- The phase of a unit. -/
def phase? (traffic : Traffic) (unit : UnitId) : Option Phase :=
  (traffic.graph.nodes.find? unit).map (·.phase)

/-- Nothing is lost and nothing is done twice. -/
structure Orderly (traffic : Traffic) : Prop where
  ready : ∀ unit, traffic.graph.ready.contains unit = true ↔ traffic.phase? unit = some .ready
  notReady : ∀ unit,
    traffic.graph.notReady.contains unit = true ↔ traffic.phase? unit = some .notReady
  processing : ∀ unit,
    traffic.graph.processing.contains unit = true ↔ traffic.phase? unit = some .processing
  /-- A unit waits for what comes before it and is not processed. -/
  waiting : ∀ unit node, traffic.graph.nodes.find? unit = some node → ∀ other,
    node.waitFor.contains other = true ↔
      node.before.contains other = true ∧ traffic.phase? other ≠ some .processed
  /-- What comes before a unit is processed once the unit is ready. -/
  before : ∀ unit node, traffic.graph.nodes.find? unit = some node → node.phase ≠ .notReady →
    ∀ other, node.before.contains other = true → traffic.phase? other = some .processed
  /-- A unit that waits for nothing has one event in the pool, and any other none. -/
  due : ∀ unit node, traffic.graph.nodes.find? unit = some node → node.phase = .notReady →
    traffic.pool.filter (·.unit = unit) =
      if node.waitFor.isEmpty then [⟨unit, .notReady, .ready⟩] else []
  /-- Whatever is allowed can be done. -/
  allowed : ∀ move, traffic.Allows move → ∃ next, traffic.make move = .ok next
  /-- The policy selects a unit that may be dispatched, or there is none. -/
  next : (traffic.graph.ready.isEmpty = true ∧
      Graph.nextReady traffic.graph = .ok none traffic.graph) ∨
    ∃ unit graph, Graph.nextReady traffic.graph = .ok (some unit) graph ∧
      traffic.Allows (.dispatch unit) ∧ Graph.dispatch unit traffic.graph = .ok () graph
  once : traffic.dispatched.Nodup

/-! ## The invariant -/

/-- The graph says that units wait for what they call and is not processed, the pool
holds one event for each unit that could become ready, and units that have been
dispatched are past being ready. -/
structure Underway (registry : Registry) (phase : UnitId → Phase) (traffic : Traffic) : Prop where
  describes : traffic.graph.Describes registry (Calls registry)
    (fun unit other => Calls registry unit other ∧ phase other ≠ .processed) phase
  settled : ∀ unit other, phase unit ≠ .notReady → Calls registry unit other →
    phase other = .processed
  pool : ∀ event, event ∈ traffic.pool ↔ event = ⟨event.unit, .notReady, .ready⟩ ∧
    (registry.method? event.unit).isSome = true ∧ phase event.unit = .notReady ∧
    ∀ other, Calls registry event.unit other → phase other = .processed
  distinct : (traffic.pool.map (·.unit)).Nodup
  dispatched : ∀ unit ∈ traffic.dispatched, phase unit = .processing ∨ phase unit = .processed
  once : traffic.dispatched.Nodup

namespace Underway

variable {registry : Registry} {phase : UnitId → Phase} {traffic : Traffic} {unit : UnitId}

open Describes (moved)

/-- No unit is in processing when a graph has been built, and those that could become
ready are. -/
theorem start {graph : Graph} (consistent : graph.Consistent registry []) :
    Underway registry (phaseAfter registry []) (.start graph) := by
  have unprocessed : ∀ other, phaseAfter registry [] other ≠ .processed := by
    intro other
    unfold phaseAfter
    grind
  refine ⟨?_, ?_, ?_, .nil, ?_, .nil⟩
  · refine Describes.congr consistent ?_ fun _ _ => rfl
    intro unit other _
    simp [unprocessed]
  · intro unit other past calls
    refine absurd (phaseAfter_eq_notReady_iff.2 ⟨List.not_mem_nil, ?_⟩) past
    intro settled
    exact List.not_mem_nil (settled other calls)
  · intro event
    constructor
    · intro member
      cases member
    · rintro ⟨_, _, waiting, free⟩
      refine absurd ?_ (phaseAfter_eq_notReady_iff.1 waiting).2
      intro other calls
      exact absurd (free other calls) (unprocessed other)
  · intro unit member
    cases member

theorem phase?_eq (underway : Underway registry phase traffic) (unit : UnitId) (target : Phase) :
    traffic.phase? unit = some target ↔
      (registry.method? unit).isSome = true ∧ phase unit = target := by
  rw [← underway.describes.isSome_iff, phase?]
  cases found : traffic.graph.nodes.find? unit with
  | none => simp
  | some node =>
      have fits := underway.describes.fits unit node found
      simp [fits.phase]

/-- A unit that moves between phases other than the last leaves the others waiting as
they are. -/
theorem congr_waits {target : Phase} {graph : Graph} (before : phase unit ≠ .processed)
    (after : target ≠ .processed)
    (describes : graph.Describes registry (Calls registry)
      (fun unit other => Calls registry unit other ∧ phase other ≠ .processed)
      (moved phase unit target)) :
    graph.Describes registry (Calls registry)
      (fun told other => Calls registry told other ∧ moved phase unit target other ≠ .processed)
      (moved phase unit target) := by
  refine describes.congr ?_ fun _ _ => rfl
  intro told other _
  simp only [moved]
  grind

/-- A ready unit is dispatched, and has not been before. -/
theorem dispatch (underway : Underway registry phase traffic)
    (allowed : traffic.Allows (.dispatch unit)) :
    ∃ next, traffic.make (.dispatch unit) = .ok next ∧
      Underway registry (moved phase unit .processing) next := by
  obtain ⟨present, here⟩ := (underway.describes.ready unit).1 allowed
  have follows : (phase unit).next? = some .processing := by
    rw [here]
    rfl
  have applied := underway.describes.apply present follows
  rw [here] at applied
  have entered := congr_waits (by simp [here]) (by simp)
    (underway.describes.enter present follows)
  have fresh : unit ∉ traffic.dispatched := by
    intro member
    rcases underway.dispatched unit member with busy | done
    · rw [here] at busy
      cases busy
    · rw [here] at done
      cases done
  refine ⟨⟨traffic.graph.enter unit .processing, traffic.pool, unit :: traffic.dispatched⟩, ?_, entered,
    ?_, ?_, underway.distinct, ?_, List.nodup_cons.2 ⟨fresh, underway.once⟩⟩
  · simp only [make, Graph.dispatch, applied]
  · intro caller other past calls
    have settled := underway.settled caller other
    simp only [moved] at past ⊢
    grind
  · intro event
    rw [underway.pool]
    simp only [moved]
    grind
  · intro other member
    have earlier := underway.dispatched other
    simp only [moved]
    grind

/-- An event of the pool is applied, and the pool has no other for the unit. -/
theorem apply {event : Event} (underway : Underway registry phase traffic)
    (allowed : traffic.Allows (.apply event)) :
    ∃ next, traffic.make (.apply event) = .ok next ∧
      Underway registry (moved phase event.unit .ready) next := by
  obtain ⟨shape, present, here, free⟩ := (underway.pool event).1 allowed
  have follows : (phase event.unit).next? = some .ready := by
    rw [here]
    rfl
  have applied := underway.describes.apply present follows
  rw [here, ← shape] at applied
  have entered := congr_waits (by simp [here]) (by simp)
    (underway.describes.enter present follows)
  have distinct := underway.distinct.of_map
  refine ⟨⟨traffic.graph.enter event.unit .ready, traffic.pool.erase event, traffic.dispatched⟩, ?_,
    entered, ?_, ?_, underway.distinct.sublist (List.erase_sublist.map _), ?_, underway.once⟩
  · simp only [make, applied]
  · intro caller other past calls
    have settled := underway.settled caller other
    have freed := free other
    simp only [moved] at past ⊢
    grind
  · intro other
    rw [distinct.mem_erase_iff, underway.pool]
    simp only [moved]
    constructor
    · rintro ⟨apart, shape', present', waiting, all⟩
      have different : other.unit ≠ event.unit := by
        intro same
        apply apart
        rw [shape', shape, same]
      simp only [different, ↓reduceIte]
      refine ⟨shape', present', waiting, ?_⟩
      intro third calls
      have done := all third calls
      have third_ne : third ≠ event.unit := by
        rintro rfl
        rw [here] at done
        cases done
      simp [third_ne, done]
    · rintro ⟨shape', present', waiting, all⟩
      have different : other.unit ≠ event.unit := by
        intro same
        simp [same] at waiting
      refine ⟨fun same => different (by rw [same]), shape', present', ?_, ?_⟩
      · simpa [different] using waiting
      · intro third calls
        have done := all third calls
        split at done
        · cases done
        · exact done
  · intro other member
    have earlier := underway.dispatched other member
    have apart : other ≠ event.unit := by
      rintro rfl
      rw [here] at earlier
      rcases earlier with busy | done
      · cases busy
      · cases done
    simpa [moved, apart] using earlier

/-- A unit in processing is finished, and the pool gets an event for every unit that
waited for it alone. -/
theorem finish (underway : Underway registry phase traffic)
    (allowed : traffic.Allows (.finish unit)) :
    ∃ next, traffic.make (.finish unit) = .ok next ∧
      Underway registry (moved phase unit .processed) next := by
  obtain ⟨present, here⟩ := (underway.phase?_eq unit .processing).1 allowed
  obtain ⟨events, told, finished, described, distinct, wakes⟩ :=
    underway.describes.finish present here
  refine ⟨⟨told, traffic.pool ++ events, traffic.dispatched⟩, ?_, ?_, ?_, ?_, ?_, ?_,
    underway.once⟩
  · simp only [make, finished]
  · refine described.congr ?_ fun _ _ => rfl
    intro caller other _
    simp only [moved]
    grind
  · intro caller other past calls
    have settled := underway.settled caller other
    simp only [moved] at past ⊢
    grind
  · intro event
    rw [List.mem_append, underway.pool, wakes]
    have callers : Calls registry event.unit unit → (registry.method? event.unit).isSome = true :=
      underway.describes.callers
    simp only [moved]
    constructor
    · rintro (⟨shape, present', waiting, all⟩ | ⟨shape, calls, apart, waiting, _, alone⟩)
      · have apart : event.unit ≠ unit := by
          intro same
          rw [same, here] at waiting
          cases waiting
        refine ⟨shape, present', by simp [apart, waiting], ?_⟩
        intro third calls
        split
        · rfl
        · exact all third calls
      · refine ⟨shape, callers calls, by simp [apart, waiting], ?_⟩
        intro third called
        split
        · rfl
        next different =>
          exact Classical.byContradiction fun undone => different (alone third ⟨called, undone⟩)
    · rintro ⟨shape, present', waiting, all⟩
      have apart : event.unit ≠ unit := by
        intro same
        simp [same] at waiting
      simp only [apart, ↓reduceIte] at waiting
      have done : ∀ third, Calls registry event.unit third → third ≠ unit →
          phase third = .processed := by
        intro third calls different
        simpa [different] using all third calls
      by_cases calls : Calls registry event.unit unit
      · refine .inr ⟨shape, calls, apart, waiting, ⟨calls, by simp [here]⟩, ?_⟩
        rintro third ⟨called, undone⟩
        exact Classical.byContradiction fun different => undone (done third called different)
      · refine .inl ⟨shape, present', waiting, ?_⟩
        intro third called
        refine done third called ?_
        rintro rfl
        exact calls called
  · -- Units with an event in the pool wait for nothing, those that are woken up did.
    rw [List.map_append, List.nodup_append]
    refine ⟨underway.distinct, distinct, ?_⟩
    intro first member second woken same
    obtain ⟨event, pooled, rfl⟩ := List.mem_map.1 member
    obtain ⟨other, returned, rfl⟩ := List.mem_map.1 woken
    obtain ⟨_, _, _, free⟩ := (underway.pool event).1 pooled
    obtain ⟨_, calls, _⟩ := (wakes other).1 returned
    rw [← same] at calls
    have done := free unit calls
    rw [here] at done
    cases done
  · intro other member
    have earlier := underway.dispatched other member
    simp only [moved]
    grind

/-- Whatever is allowed can be done. -/
theorem make (underway : Underway registry phase traffic) {move : Move}
    (allowed : traffic.Allows move) :
    ∃ next later, traffic.make move = .ok next ∧ Underway registry later next := by
  cases move with
  | dispatch unit =>
      obtain ⟨next, made, after⟩ := underway.dispatch allowed
      exact ⟨next, _, made, after⟩
  | finish unit =>
      obtain ⟨next, made, after⟩ := underway.finish allowed
      exact ⟨next, _, made, after⟩
  | apply event =>
      obtain ⟨next, made, after⟩ := underway.apply allowed
      exact ⟨next, _, made, after⟩

theorem steps {next : Traffic} (underway : Underway registry phase traffic)
    (steps : ReflTransGen Step traffic next) : ∃ later, Underway registry later next := by
  induction steps with
  | refl => exact ⟨phase, underway⟩
  | tail _ step ih =>
      obtain ⟨middle, between⟩ := ih
      obtain ⟨move, allowed, made⟩ := step
      obtain ⟨made', later, also, after⟩ := between.make allowed
      rw [made] at also
      cases also
      exact ⟨later, after⟩

/-! ## What follows from it -/

theorem filter_pool (underway : Underway registry phase traffic) {node : GraphNode}
    (found : traffic.graph.nodes.find? unit = some node) (waiting : node.phase = .notReady) :
    traffic.pool.filter (·.unit = unit) =
      if node.waitFor.isEmpty then [⟨unit, .notReady, .ready⟩] else [] := by
  have fits := underway.describes.fits unit node found
  have present : (registry.method? unit).isSome = true := by
    rw [← underway.describes.isSome_iff, found]
    rfl
  have free : node.waitFor.isEmpty = true ↔
      ∀ other, Calls registry unit other → phase other = .processed := by
    simp only [KeySet.isEmpty_iff, ← Bool.not_eq_true, fits.waitFor, not_and, Decidable.not_not]
  have listed : ∀ event, event ∈ traffic.pool.filter (·.unit = unit) ↔
      event = ⟨unit, .notReady, .ready⟩ ∧ node.waitFor.isEmpty = true := by
    intro event
    rw [List.mem_filter, underway.pool, free, decide_eq_true_eq]
    constructor
    · rintro ⟨⟨shape, _, _, all⟩, rfl⟩
      exact ⟨shape, all⟩
    · rintro ⟨rfl, all⟩
      exact ⟨⟨rfl, present, fits.phase.symm.trans waiting, all⟩, rfl⟩
  split
  next empty =>
    apply List.perm_singleton.1
    refine (List.perm_ext_iff_of_nodup (underway.distinct.of_map.filter _)
      (List.nodup_singleton _)).2 ?_
    intro event
    rw [listed, List.mem_singleton, and_iff_left empty]
  next busy =>
    apply List.eq_nil_iff_forall_not_mem.2
    intro event member
    exact busy ((listed event).1 member).2

theorem orderly (underway : Underway registry phase traffic) : traffic.Orderly := by
  have describes := underway.describes
  constructor
  case ready =>
    intro unit
    rw [describes.ready, underway.phase?_eq]
  case notReady =>
    intro unit
    rw [describes.notReady, underway.phase?_eq]
  case processing =>
    intro unit
    rw [describes.processing, underway.phase?_eq]
  case waiting =>
    intro unit node found other
    have fits := describes.fits unit node found
    rw [fits.waitFor, fits.before, Ne, Ne, underway.phase?_eq]
    constructor
    · rintro ⟨calls, undone⟩
      exact ⟨calls, fun both => undone both.2⟩
    · rintro ⟨calls, undone⟩
      exact ⟨calls, fun done => undone ⟨describes.callees calls, done⟩⟩
  case before =>
    intro unit node found past other listed
    have fits := describes.fits unit node found
    rw [fits.phase] at past
    have calls := (fits.before other).1 listed
    exact (underway.phase?_eq other .processed).2
      ⟨describes.callees calls, underway.settled unit other past calls⟩
  case due =>
    intro unit node found waiting
    exact underway.filter_pool found waiting
  case allowed =>
    intro move allowed
    obtain ⟨next, _, made, _⟩ := underway.make allowed
    exact ⟨next, made⟩
  case next =>
    rw [nextReady_eq]
    cases listed : traffic.graph.ready.keys with
    | nil =>
        have empty : traffic.graph.ready.entries = [] := List.map_eq_nil_iff.1 listed
        exact .inl ⟨by rw [Table.isEmpty, empty]; rfl, rfl⟩
    | cons unit rest =>
        have ready : traffic.graph.ready.contains unit = true :=
          Table.mem_keys_iff.1 (by simp [listed])
        obtain ⟨present, here⟩ := (describes.ready unit).1 ready
        have follows : (phase unit).next? = some .processing := by
          rw [here]
          rfl
        have applied := describes.apply present follows
        rw [here] at applied
        have sent : Graph.dispatch unit traffic.graph =
            .ok () (traffic.graph.enter unit .processing) := by
          simp only [Graph.dispatch, applied]
        exact .inr ⟨unit, _, by simp only [sent], ready, sent⟩
  case once => exact underway.once

end Underway

/-- Whatever is done with the graph of a program in whatever order, nothing is lost and
nothing is done twice. -/
theorem orderly_of_steps (program : Code.Program) {policy : Policy} {graph : Graph}
    {traffic : Traffic} (built : build (.ofProgram program) policy = .ok graph)
    (reached : ReflTransGen Step (start graph) traffic) : traffic.Orderly := by
  have consistent := consistent_build (Registry.named_ofProgram program) built
  obtain ⟨phase, underway⟩ := (Underway.start consistent).steps reached
  exact underway.orderly

/-- Make several moves as long as they are allowed and succeed. -/
def follow : List Move → Traffic → Option Traffic
  | [], traffic => some traffic
  | move :: rest, traffic =>
      if traffic.Allows move then
        match traffic.make move with
        | .ok next => follow rest next
        | .error _ => none
      else none

theorem steps_of_follow {moves : List Move} {traffic last : Traffic}
    (followed : follow moves traffic = some last) : ReflTransGen Step traffic last := by
  induction moves generalizing traffic with
  | nil =>
      cases followed
      exact .refl
  | cons move rest ih =>
      unfold follow at followed
      split at followed
      next allowed =>
        split at followed
        next next made => exact .head ⟨move, allowed, made⟩ (ih followed)
        next => cases followed
      next => cases followed

/-- Two methods that share what they call, one that calls both, and one that calls
itself. -/
def pier : Code.Program := ⟨[⟨0, "Pier", "", [],
  [.plain "moor" [], .plain "tie" [],
    .plain "dock" [.call 1 "" "moor" [], .call 2 "" "tie" []],
    .plain "berth" [.call 3 "" "moor" []],
    .plain "land" [.call 4 "" "dock" [], .call 5 "" "berth" []],
    .plain "drift" [.call 6 "" "drift" []]]⟩]⟩

/-- Two units are in processing at the same time, and both events are left waiting while
one of the units they are about could be dispatched. -/
def crossing : List Move :=
  [.dispatch ⟨"Pier", "tie"⟩, .dispatch ⟨"Pier", "moor"⟩, .finish ⟨"Pier", "moor"⟩,
    .finish ⟨"Pier", "tie"⟩, .apply ⟨⟨"Pier", "dock"⟩, .notReady, .ready⟩,
    .dispatch ⟨"Pier", "dock"⟩]

theorem orderly_crossing :
    ∃ graph traffic, build (.ofProgram pier) .unordered = .ok graph ∧
      ReflTransGen Step (start graph) traffic ∧ traffic.Orderly ∧
      traffic.pool = [⟨⟨"Pier", "berth"⟩, .notReady, .ready⟩] ∧
      traffic.dispatched = [⟨"Pier", "dock"⟩, ⟨"Pier", "moor"⟩, ⟨"Pier", "tie"⟩] := by
  have shown : ((build (.ofProgram pier) .unordered).toOption.bind fun graph =>
      (follow crossing (start graph)).map fun traffic => (traffic.pool, traffic.dispatched)) =
        some ([⟨⟨"Pier", "berth"⟩, .notReady, .ready⟩],
          [⟨"Pier", "dock"⟩, ⟨"Pier", "moor"⟩, ⟨"Pier", "tie"⟩]) := by
    decide +kernel
  obtain ⟨graph, isBuilt, rest⟩ := Option.bind_eq_some_iff.1 shown
  obtain ⟨traffic, followed, ended⟩ := Option.map_eq_some_iff.1 rest
  have built : build (.ofProgram pier) .unordered = .ok graph := by
    cases built : build (.ofProgram pier) .unordered with
    | ok graph =>
        rw [built] at isBuilt
        cases isBuilt
        rfl
    | error error =>
        rw [built] at isBuilt
        cases isBuilt
  have reached := steps_of_follow followed
  obtain ⟨pool, dispatched⟩ := Prod.mk.inj ended
  exact ⟨graph, traffic, built, reached, orderly_of_steps pier built reached, pool, dispatched⟩

end Traffic

end Custody.Graph
