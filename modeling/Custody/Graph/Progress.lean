import Custody.Data.Sum
import Custody.Graph.Dispatch

/-!
# Progress

Every change of phase brings a unit one phase on, and nothing ever brings it
back.  `Graph.stepsLeft` adds up the phases that the units still have before
them; it bounds the number of changes, and with them the number of dispatches.
-/

namespace Custody.Graph

/-- The phases that all units together still have before them. -/
def stepsLeft (graph : Graph) : Nat :=
  graph.nodes.entries.foldr (fun entry others => entry.2.phase.stepsLeft + others) 0

/-- A change of a node that leaves its phase alone takes no step. -/
theorem stepsLeft_modify_of_phase_eq {graph : Graph} {unit : UnitId}
    {change : GraphNode → GraphNode} (same : ∀ node, (change node).phase = node.phase) :
    stepsLeft { graph with nodes := graph.nodes.modify unit change } = graph.stepsLeft := by
  simp only [stepsLeft, Table.modify, Table.map, List.foldr_map]
  refine congrArg (List.foldr · 0 graph.nodes.entries) (funext fun entry => funext fun others => ?_)
  split <;> simp [same]

@[simp] theorem nodes_enter (graph : Graph) (unit : UnitId) (phase : Phase) :
    (graph.enter unit phase).nodes =
      graph.nodes.modify unit fun node => { node with phase } := by
  cases phase <;> rfl

/-- Applying an event takes a step. -/
theorem stepsLeft_apply {graph next : Graph} {event : Event}
    (applied : apply event graph = .ok () next) : next.stepsLeft < graph.stepsLeft := by
  unfold apply at applied
  split at applied
  · cases applied
  next node found =>
    split at applied
    next allowed =>
      cases applied
      obtain ⟨here, follows⟩ := Bool.and_eq_true_iff.1 allowed
      have here : node.phase = event.source := of_decide_eq_true here
      have follows : event.source.next? = some event.target := of_decide_eq_true follows
      have less := Phase.stepsLeft_of_next? follows
      obtain ⟨index, inside, entry, modified⟩ := Table.entries_modify found
        fun node => { node with phase := event.target }
      have moved := foldr_add_modify (fun entry => entry.2.phase.stepsLeft)
        (fun entry => (entry.1, { entry.2 with phase := event.target })) graph.nodes.entries index
        inside
      simp only [stepsLeft, nodes_enter]
      rw [modified]
      simp only [entry, here] at moved
      omega
    next => cases applied

/-- Dispatching the next unit takes a step. -/
theorem stepsLeft_nextReady {graph next : Graph} {unit : UnitId}
    (dispatched : nextReady graph = .ok (some unit) next) : next.stepsLeft < graph.stepsLeft := by
  unfold nextReady dispatch at dispatched
  split at dispatched
  · cases dispatched
  next chosen selected =>
    cases applied : apply ⟨chosen, .ready, .processing⟩ graph with
    | ok done after =>
        rw [applied] at dispatched
        cases dispatched
        exact stepsLeft_apply applied
    | error error after =>
        rw [applied] at dispatched
        cases dispatched

theorem phase_update (node : GraphNode) (unit done : UnitId) :
    (node.update unit done).2.phase = node.phase := by
  unfold GraphNode.update
  split <;> rfl

/-- Telling units that another one is done takes no step. -/
theorem stepsLeft_notify {done : UnitId} {units : List UnitId} {graph next : Graph}
    {events : List Event} (told : notify done units graph = .ok events next) :
    next.stepsLeft = graph.stepsLeft := by
  induction units generalizing graph events with
  | nil => cases told; rfl
  | cons unit rest ih =>
      unfold notify at told
      split at told
      · cases told
      next node found =>
        dsimp only at told
        split at told
        next later after notified =>
          cases told
          rw [ih notified]
          exact stepsLeft_modify_of_phase_eq fun node => phase_update node unit done
        next => cases told

/-- Finishing a unit takes a step. -/
theorem stepsLeft_finish {graph next : Graph} {unit : UnitId} {events : List Event}
    (finished : finish unit graph = .ok events next) : next.stepsLeft < graph.stepsLeft := by
  unfold finish at finished
  split at finished
  · cases finished
  next after applied =>
    split at finished
    · cases finished
    next node found =>
      rw [stepsLeft_notify finished]
      exact stepsLeft_apply applied

/-- Applying events never takes a step back. -/
theorem stepsLeft_applyAll {events : List Event} {graph next : Graph}
    (applied : applyAll events graph = .ok () next) : next.stepsLeft ≤ graph.stepsLeft := by
  induction events generalizing graph with
  | nil => cases applied; exact Nat.le_refl _
  | cons event rest ih =>
      simp only [applyAll, bind, EStateM.bind] at applied
      split at applied
      next done after first =>
        exact Nat.le_trans (ih applied) (Nat.le_of_lt (stepsLeft_apply first))
      next => cases applied

/-- Dispatch a unit, finish it, and apply what follows from that.  The answer is
the unit, if one was ready. -/
def advance : Action Error (Option UnitId) := fun graph =>
  match nextReady graph with
  | .error error graph => .error error graph
  | .ok none graph => .ok none graph
  | .ok (some unit) graph =>
      match finish unit graph with
      | .error error graph => .error error graph
      | .ok events graph =>
          match applyAll events graph with
          | .error error graph => .error error graph
          | .ok () graph => .ok (some unit) graph

theorem stepsLeft_advance {graph next : Graph} {unit : UnitId}
    (advanced : advance graph = .ok (some unit) next) : next.stepsLeft < graph.stepsLeft := by
  unfold advance at advanced
  split at advanced
  · cases advanced
  · cases advanced
  next dispatched =>
    have first := stepsLeft_nextReady dispatched
    split at advanced
    · cases advanced
    next finished =>
      have second := stepsLeft_finish finished
      split at advanced
      · cases advanced
      next applied =>
        cases advanced
        have third := stepsLeft_applyAll applied
        omega

/-- Process units without doing anything for them, until none is ready.  The
answer is the order of the units. -/
def exhaust : Action Error (List UnitId) := fun graph =>
  match advanced : advance graph with
  | .error error graph => .error error graph
  | .ok none graph => .ok [] graph
  | .ok (some unit) next =>
      have : next.stepsLeft < graph.stepsLeft := stepsLeft_advance advanced
      match exhaust next with
      | .error error graph => .error error graph
      | .ok units graph => .ok (unit :: units) graph
  termination_by graph => graph.stepsLeft

end Custody.Graph
