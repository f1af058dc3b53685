import Custody.Graph.Edges

/-!
# Dispatching units

Units that wait for nothing become ready, ready units are dispatched, and a
dispatched unit that has been finished may let others become ready.  Changes of
phase that follow from an operation are returned as events and are applied by
the caller.
-/

namespace Custody

/-- A unit that waits for others for ever, and those it waits for. -/
structure StuckUnit where
  unit : UnitId
  waitFor : List UnitId
  deriving DecidableEq, Inhabited, Repr

/-- Units that wait for each other. -/
structure CycleError where
  stuck : List StuckUnit
  deriving DecidableEq, Inhabited, Repr

namespace CycleError

/-- The wording of a cycle error. -/
def message (error : CycleError) : String :=
  let waits := error.stuck.map fun entry =>
    entry.unit.text ++ " waits for " ++ UnitId.listText entry.waitFor
  "cyclic dependency" ++ (if waits.isEmpty then "" else ": " ++ ", ".intercalate waits)

/-- The stuck units of independent graphs, in the order of the units. -/
def merge (errors : List CycleError) : CycleError :=
  ⟨(errors.flatMap (·.stuck)).mergeSort fun left right => (compare left.unit right.unit).isLE⟩

end CycleError

namespace Graph

/-- The units that want to become ready. -/
def refresh (graph : Graph) : List Event :=
  graph.nodes.entries.filterMap fun (unit, node) => node.wakeUp? unit

/-- Bring a unit into a phase and move it between the lists. -/
def enter (graph : Graph) (unit : UnitId) (phase : Phase) : Graph :=
  let moved := { graph with nodes := graph.nodes.modify unit fun node => { node with phase } }
  match phase with
  | .notReady => moved
  | .ready => { moved with notReady := graph.notReady.erase unit, ready := graph.ready.add unit }
  | .processing =>
      { moved with ready := graph.ready.erase unit, processing := graph.processing.add unit }
  | .processed => { moved with processing := graph.processing.erase unit }

/-- Change the phase of a unit. -/
def apply (event : Event) : Action Error Unit := fun graph =>
  match graph.nodes.find? event.unit with
  | none => .error (.notUnit event.unit) graph
  | some node =>
      if node.phase = event.source && event.source.next? = some event.target then
        .ok () (graph.enter event.unit event.target)
      else
        .error (.transition event.unit event.source.code event.target.code node.phase) graph

/-- Change the phase of a unit, with the phases given by number. -/
def applyCodes (unit : UnitId) (source target : UInt8) : Action Error Unit := fun graph =>
  match graph.nodes.find? unit with
  | none => .error (.notUnit unit) graph
  | some node =>
      match Phase.ofCode? source, Phase.ofCode? target with
      | some source, some target => apply ⟨unit, source, target⟩ graph
      | _, _ => .error (.transition unit source target node.phase) graph

/-- Dispatch a unit that is listed as ready. -/
def dispatch (unit : UnitId) : Action Error Unit := fun graph =>
  match apply ⟨unit, .ready, .processing⟩ graph with
  | .ok () graph => .ok () graph
  | .error _ graph => .error .outOfSync graph

/-- The unit that the policy selects among the ready ones.  Where the policy
leaves the choice open, the least one is as good as any. -/
def select? (graph : Graph) : Option UnitId :=
  match graph.policy with
  | .unordered | .lexicographic => graph.ready.least?

/-- Dispatch the next ready unit, if there is one. -/
def nextReady : Action Error (Option UnitId) := fun graph =>
  match graph.select? with
  | none => .ok none graph
  | some unit =>
      match dispatch unit graph with
      | .ok () graph => .ok (some unit) graph
      | .error error graph => .error error graph

/-- Tell the units that come after a finished one, in order, and collect those
that want to become ready. -/
def notify (done : UnitId) : List UnitId → Action Error (List Event)
  | [] => pure []
  | unit :: rest => fun graph =>
      match graph.nodes.find? unit with
      | none => .error .outOfSync graph
      | some node =>
          let told := { graph with nodes := graph.nodes.modify unit fun node => (node.update unit done).2 }
          match notify done rest told with
          | .ok events graph => .ok ((node.update unit done).1.toList ++ events) graph
          | .error error graph => .error error graph

/-- Mark a dispatched unit as processed. -/
def finish (unit : UnitId) : Action Error (List Event) := fun graph =>
  match apply ⟨unit, .processing, .processed⟩ graph with
  | .error error graph => .error error graph
  | .ok () graph =>
      match graph.nodes.find? unit with
      | none => .error .outOfSync graph
      | some node => notify unit node.after.toList graph

/-- Apply several changes of phase, up to the first that fails. -/
def applyAll : List Event → Action Error Unit
  | [] => pure ()
  | event :: rest => do
      apply event
      applyAll rest

/-- Have all units been processed? -/
def isDone (graph : Graph) : Bool :=
  graph.ready.isEmpty && graph.notReady.isEmpty && graph.processing.isEmpty

/-- The units that wait for each other, if no unit is ready or in processing and
some are left. -/
def stuck? (graph : Graph) : Option CycleError :=
  if graph.ready.isEmpty && graph.processing.isEmpty && !graph.notReady.isEmpty then
    some ⟨graph.notReady.toList.map fun unit =>
      ⟨unit, ((graph.nodes.find? unit).map (·.waitFor.toList)).getD []⟩⟩
  else none

/-- Why no graph could be built. -/
inductive BuildError where
  | edge (error : EdgeError)
  | graph (error : Error)
  deriving DecidableEq, Repr

/-- The wording of a build error. -/
def BuildError.message : BuildError → String
  | edge error => error.message
  | graph error => error.message

/-- The graph of all methods of a registry, with the units ready that call no
other. -/
def build (registry : Registry) (policy : Policy) : Except BuildError Graph :=
  let units := registry.methods.foldl
    (fun graph method => graph.addUnit method.unit (some method)) (empty policy)
  match link registry units with
  | .error error _ => .error (.edge error)
  | .ok () graph =>
      match applyAll graph.refresh graph with
      | .error error _ => .error (.graph error)
      | .ok () graph => .ok graph

end Graph

end Custody
