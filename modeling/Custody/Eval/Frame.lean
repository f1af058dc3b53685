import Custody.Eval.Failure
import Custody.Heap.Reach

/-!
# Frames

A frame is the state of the analysis of one unit: the simulated memory, the
receiver and the parameters whose fate is watched, and what has been noted on
the way.

An object passed in by the caller counts as changed once something it reaches is
assigned or captured; the position of the first change is kept.  It is passed
forward once it is returned.  A copied object belongs to the unit, so a change
of the object itself is not seen by the caller.
-/

namespace Custody.Eval

/-- An object passed in by the caller. -/
structure Tracked where
  name : String
  object : Ref
  copied : Bool
  /-- The position of the first change. -/
  changedAt : Option Int
  /-- Has the object been returned? -/
  forward : Bool
  deriving DecidableEq, Inhabited

namespace Tracked

/-- An object to which nothing has happened yet. -/
def new (name : String) (object : Ref) (copied : Bool) : Tracked :=
  ⟨name, object, copied, none, false⟩

/-- The effect on a tracked object. -/
def effect (tracked : Tracked) : Effect :=
  if tracked.changedAt.isSome then .doesChange
  else if tracked.forward then .passForward
  else .doesNotChange

/-- An object is changed at a position: whatever reaches it is changed. -/
def taint (heap : Heap) (pos : Int) (object : Ref) (tracked : Tracked) : Tracked :=
  if tracked.changedAt.isSome || (tracked.copied && tracked.object = object) then tracked
  else if heap.reaches tracked.object object then { tracked with changedAt := some pos }
  else tracked

/-- An object is returned. -/
def returned (object : Ref) (tracked : Tracked) : Tracked :=
  if tracked.object = object then { tracked with forward := true } else tracked

end Tracked

/-- A construct that the evaluation passes over. -/
structure Skipped where
  pos : Int
  construct : String
  deriving DecidableEq, Inhabited, Repr

/-- The message of a construct passed over. -/
def Skipped.message (skipped : Skipped) : String :=
  "unsupported construct: " ++ skipped.construct

/-- What is written to the log. -/
inductive LogEntry where
  | processing (unit : UnitId)
  | objectsLeft (unit : UnitId) (live : Nat)
  | skippedConstruct (unit : UnitId) (construct : String)
  | skippedStore (unit : UnitId) (field : String)
  deriving DecidableEq, Repr

namespace LogEntry

/-- The message of a log entry and its attributes. -/
def parts : LogEntry → String × List (String × String)
  | processing unit => ("Processing unit", [("unit", unit.text)])
  | objectsLeft unit live =>
      ("Objects left after unit", [("unit", unit.text), ("live", toString live)])
  | skippedConstruct unit construct =>
      ("Skipping unsupported construct", [("unit", unit.text), ("construct", construct)])
  | skippedStore unit field =>
      ("Skipping store to nil object", [("unit", unit.text), ("field", field)])

/-- The text of a log entry. -/
def text (entry : LogEntry) : String :=
  let (message, attributes) := entry.parts
  "DEBUG " ++ message ++ String.join (attributes.map fun (key, value) => " " ++ key ++ "=" ++ value)

end LogEntry

/-- The state of the analysis of a unit. -/
structure Frame where
  memory : Memory
  receiver : Tracked
  params : List Tracked
  /-- Holds what is captured by a receiver that is not known. -/
  sink : Ref
  /-- The number of captures so far. -/
  captures : Nat
  /-- The fields of objects that were assigned or read, by object identifier:
  they do not stand for state of the caller any more. -/
  written : List (Nat × String)
  skipped : List Skipped
  log : List LogEntry
  deriving Inhabited

namespace Frame

/-- The heap of a frame. -/
def heap (frame : Frame) : Heap := frame.memory.heap

/-- The receiver and the parameters. -/
def tracked (frame : Frame) : List Tracked := frame.receiver :: frame.params

/-- Change all that is tracked. -/
def mapTracked (frame : Frame) (change : Tracked → Tracked) : Frame :=
  { frame with receiver := change frame.receiver, params := frame.params.map change }

@[simp] theorem tracked_mapTracked (frame : Frame) (change : Tracked → Tracked) :
    (frame.mapTracked change).tracked = frame.tracked.map change := rfl

end Frame

/-- What the evaluation of a unit rests on. -/
structure Context where
  registry : Registry
  /-- The summaries of the units that may be called. -/
  summaries : Summaries
  /-- When objects are freed. -/
  rules : Heap.Discipline
  /-- The unit under evaluation. -/
  method : Method

/-- A step of an evaluation.  The frame after a failure shows how far the
evaluation came. -/
abbrev Step : Type → Type := EStateM Failure Frame

namespace Step

/-- Fail for a cause. -/
def fail {α : Type} (cause : Cause) : Step α := throw (.plain cause)

/-- The answer of the registry. -/
def ofRegistry {α : Type} : Except Registry.Error α → Step α
  | .ok result => pure result
  | .error error => fail (.registry error)

/-- An operation on the memory of the frame. -/
def onMemory {α : Type} (action : Memory.Action α) : Step α := fun frame =>
  match action frame.memory with
  | .ok result memory => .ok result { frame with memory }
  | .error error memory => .error (.plain (.memory error)) { frame with memory }

/-- An operation on the heap of the frame. -/
def onHeap {α : Type} (action : Heap.Action α) : Step α :=
  onMemory (Memory.onHeap .heap action)

/-- Name a node for the failure of a step, unless a node inside was named. -/
def locate {α : Type} (pos : Int) (kind : Code.Kind) (step : Step α) : Step α := fun frame =>
  match step frame with
  | .ok result frame => .ok result frame
  | .error failure frame => .error (failure.locate pos kind) frame

/-- Mark all that reaches an object as changed. -/
def taint (pos : Int) : Option Ref → Step Unit
  | none => pure ()
  | some object => modify fun frame => frame.mapTracked (.taint frame.heap pos object)

/-- Mark an object as returned. -/
def returned : Option Ref → Step Unit
  | none => pure ()
  | some object => modify fun frame => frame.mapTracked (.returned object)

/-- Write to the log. -/
def note (entry : LogEntry) : Step Unit :=
  modify fun frame => { frame with log := frame.log ++ [entry] }

/-- Pass over a construct. -/
def skip (context : Context) (pos : Int) (construct : String) : Step Unit := do
  modify fun frame => { frame with skipped := frame.skipped ++ [⟨pos, construct⟩] }
  note (.skippedConstruct context.method.unit construct)

/-- Note that a field of an object does not stand for state of the caller. -/
def markWritten (id : Nat) (name : String) : Step Unit :=
  modify fun frame => { frame with written := (id, name) :: frame.written }

end Step

end Custody.Eval
