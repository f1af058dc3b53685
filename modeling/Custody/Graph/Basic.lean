import Custody.Registry

/-!
# The graph of units

A unit has to be processed after the units it calls.  The graph has a node for
every unit, with the units that come before it, those of them it still waits
for, and the units that come after it.  A node goes through four phases: it is
not ready while it waits for others, ready when it waits for none, in processing
once it has been dispatched, and processed at last.

The graph lists the units of each phase but the last, so that the next unit to
dispatch is found without a search.
-/

namespace Custody

/-- How far a unit has come. -/
inductive Phase where
  | notReady
  | ready
  | processing
  | processed
  deriving DecidableEq, Inhabited, Repr

namespace Phase

/-- The number of a phase. -/
def code : Phase → UInt8
  | notReady => 0
  | ready => 1
  | processing => 2
  | processed => 3

/-- The phase with a number. -/
def ofCode? (code : UInt8) : Option Phase :=
  match code.toNat with
  | 0 => some notReady
  | 1 => some ready
  | 2 => some processing
  | 3 => some processed
  | _ => none

/-- The name of a phase number, defined or not. -/
def codeName (code : UInt8) : String :=
  Text.enumerated "State" ["NotReady", "Ready", "Processing", "Processed"] code

/-- The name of a phase. -/
def name (phase : Phase) : String := codeName phase.code

/-- The phase that follows, if there is one. -/
def next? : Phase → Option Phase
  | notReady => some ready
  | ready => some processing
  | processing => some processed
  | processed => none

/-- How many phases are still to come. -/
def stepsLeft : Phase → Nat
  | notReady => 3
  | ready => 2
  | processing => 1
  | processed => 0

theorem stepsLeft_of_next? {phase later : Phase} (follows : phase.next? = some later) :
    later.stepsLeft < phase.stepsLeft := by
  cases phase <;> cases follows <;> decide

end Phase

/-- A unit of the graph. -/
structure GraphNode where
  /-- The method to process, if it is known. -/
  method : Option Method
  /-- The units that must be processed first. -/
  before : KeySet UnitId
  /-- The units of `before` that are not processed yet. -/
  waitFor : KeySet UnitId
  /-- The units that must be processed later. -/
  after : KeySet UnitId
  phase : Phase
  deriving Inhabited

/-- A change of phase. -/
structure Event where
  unit : UnitId
  source : Phase
  target : Phase
  deriving DecidableEq, Inhabited, Repr

namespace GraphNode

/-- A unit that depends on nothing yet. -/
def new (method : Option Method) : GraphNode := ⟨method, ∅, ∅, ∅, .notReady⟩

/-- Another unit must be processed first. -/
def addBefore (unit : UnitId) (node : GraphNode) : GraphNode :=
  { node with before := node.before.add unit, waitFor := node.waitFor.add unit }

/-- Another unit must be processed later. -/
def addAfter (unit : UnitId) (node : GraphNode) : GraphNode :=
  { node with after := node.after.add unit }

/-- A node that waits for nothing any more wants to become ready. -/
def wakeUp? (unit : UnitId) (node : GraphNode) : Option Event :=
  if node.phase = .notReady && node.waitFor.isEmpty then some ⟨unit, .notReady, .ready⟩ else none

/-- Note that another unit has been processed.  The node may want to become
ready by this, if it waited for that unit. -/
def update (unit done : UnitId) (node : GraphNode) : Option Event × GraphNode :=
  if node.waitFor.contains done then
    let node := { node with waitFor := node.waitFor.erase done }
    (node.wakeUp? unit, node)
  else (none, node)

end GraphNode

/-- Which of the ready units is dispatched next. -/
inductive Policy where
  /-- Any of them. -/
  | unordered
  /-- The least one. -/
  | lexicographic
  deriving DecidableEq, Inhabited, Repr

/-- The units with their dependencies, and those of each phase but the last. -/
structure Graph where
  nodes : Table UnitId GraphNode
  ready : KeySet UnitId
  notReady : KeySet UnitId
  processing : KeySet UnitId
  policy : Policy
  deriving Inhabited

namespace Graph

/-- What can go wrong with a unit of the graph. -/
inductive Error where
  | notUnit (unit : UnitId)
  /-- A change of phase that skips or reverts a phase, or does not start from
  the phase the unit is in. -/
  | transition (unit : UnitId) (source target : UInt8) (current : Phase)
  /-- The listed units and the nodes do not fit together. -/
  | outOfSync
  deriving DecidableEq, Repr

/-- The wording of an error. -/
def Error.message : Error → String
  | notUnit unit => unit.text ++ " is not a unit: unresolved call target"
  | transition unit source target current =>
      unit.text ++ ": " ++ Phase.codeName source ++ " -> " ++ Phase.codeName target ++
        " in state " ++ current.name ++ ": invalid state transition"
  | outOfSync => "units out of sync"

/-- The graph without units. -/
def empty (policy : Policy) : Graph := ⟨∅, ∅, ∅, ∅, policy⟩

/-- The number of units. -/
def size (graph : Graph) : Nat := graph.nodes.size

/-- Add a unit; one that is there already stays as it is. -/
def addUnit (graph : Graph) (unit : UnitId) (method : Option Method) : Graph :=
  if graph.nodes.contains unit then graph
  else
    { graph with
      nodes := graph.nodes.insert unit (.new method)
      notReady := graph.notReady.add unit }

/-- The graph of units in any phase, with the lists that belong to it. -/
def ofNodes (policy : Policy) (nodes : Table UnitId GraphNode) : Graph where
  nodes := nodes
  ready := phaseUnits .ready
  notReady := phaseUnits .notReady
  processing := phaseUnits .processing
  policy := policy
where
  phaseUnits (phase : Phase) : KeySet UnitId :=
    (nodes.filter fun _ node => node.phase = phase).map fun _ _ => ()

/-- An operation on a graph.  The graph after a failed operation shows how far
the operation came. -/
abbrev Action (ε : Type) : Type → Type := EStateM ε Graph

end Graph

end Custody
