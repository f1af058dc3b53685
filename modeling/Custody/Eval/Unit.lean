import Custody.Eval.Node

/-!
# Evaluating units

The receiver and the parameters of a unit are bound in a root scope; the caller
holds one more reference to every parameter.  The body is evaluated in a scope
inside.  Afterwards the tracked objects tell the effects of the unit, and all
references are dropped again: what is left then owns itself in a cycle.
-/

namespace Custody.Eval

open Code

/-- What the evaluation of a unit has found out. -/
structure Result where
  /-- The effect on every parameter. -/
  effects : Table String Effect
  receiver : Effect
  /-- The position of the first change of everything changed. -/
  changes : Table String Int
  /-- The live objects at the end of the body. -/
  heap : List Heap.ObjectState
  skipped : List Skipped
  deriving DecidableEq, Inhabited

/-- The summary that callers of the unit may rely on. -/
def Result.summary (result : Result) : Summary := ⟨result.effects, result.receiver⟩

/-- The frame of a unit at its entry, and its root scope. -/
structure Entry where
  receiver : Tracked
  sink : Ref
  params : List Tracked
  root : ScopeId

/-- Bind the parameters of a unit; the caller holds them as well. -/
def bindParams (rules : Heap.Discipline) (root : ScopeId) :
    List Param → Memory.Action (List Tracked)
  | [] => pure []
  | param :: rest => do
      let object ← Memory.onHeap .heap (Heap.allocate param.type true)
      Memory.onHeap .heap (rules.ref (some object))
      let _ ← Memory.declare rules root param.name param.type (some object)
      return .new param.name object param.isValue :: (← bindParams rules root rest)

/-- Bind the receiver and the parameters of a unit. -/
def enter (rules : Heap.Discipline) (method : Method) : Memory.Action Entry := do
  let root ← Memory.openRoot
  let receiver ← Memory.onHeap .heap (Heap.allocate method.owner true)
  let _ ← Memory.declare rules root this method.owner (some receiver)
  let sink ← Memory.onHeap .heap (Heap.allocate "" false)
  Memory.onHeap .heap (rules.ref (some sink))
  let params ← bindParams rules root method.params
  return { receiver := .new this receiver method.decl.valueReceiver, sink, params, root }

/-- The frame at the entry of a unit. -/
def Entry.frame (entry : Entry) (memory : Memory) : Frame where
  memory := memory
  receiver := entry.receiver
  params := entry.params
  sink := entry.sink
  captures := 0
  written := []
  skipped := []
  log := []

/-- Evaluate the body of a unit in its own scope. -/
def body (context : Context) (root : ScopeId) : Step ScopeId := do
  let inner ← Step.onMemory (Memory.openChild root)
  match context.method.decl.body with
  | some body => Step.block context inner body.stmts
  | none => pure ()
  return inner

/-- What a frame at the end of the body tells about its unit. -/
def Frame.result (frame : Frame) : Result where
  effects := Table.ofList (frame.params.map fun param => (param.name, param.effect))
  receiver := frame.receiver.effect
  changes := Table.ofList <| frame.tracked.filterMap fun tracked =>
    tracked.changedAt.map (tracked.name, ·)
  heap := frame.heap.snapshot
  skipped := frame.skipped

/-- Run several memory operations whatever becomes of each, and list the errors. -/
def runAll : List (Memory.Action Unit) → Memory → List Memory.Error × Memory
  | [], memory => ([], memory)
  | action :: rest, memory =>
      match action memory with
      | .ok () memory => runAll rest memory
      | .error error memory =>
          let (errors, memory) := runAll rest memory
          (error :: errors, memory)

/-- Drop all references of a unit: those of its scopes, those of the caller and
the sink.  Objects that are still live are noted in the log. -/
def leave (context : Context) (root inner : ScopeId) : Step Unit := fun frame =>
  let rules := context.rules
  let drops := frame.params.map fun param =>
    Memory.onHeap .heap (rules.unref (some param.object))
  let (errors, memory) := runAll
    ([Memory.close rules inner, Memory.close rules root] ++ drops ++
      [Memory.onHeap .heap (rules.unref (some frame.sink)), Memory.onHeap .heap rules.sweep])
    frame.memory
  let live := memory.heap.size
  let log :=
    if live = 0 then frame.log else frame.log ++ [.objectsLeft context.method.unit live]
  let frame := { frame with memory, log }
  if errors.isEmpty then .ok () frame else .error (.plain (.leave errors)) frame

/-- Evaluate a unit that has been entered. -/
def evaluate (context : Context) (root : ScopeId) : Step Result := do
  let inner ← body context root
  let result := (← get).result
  leave context root inner
  return result

/-- The outcome of the evaluation of a unit: its result or why it failed, the
last identifier handed out, and the log. -/
structure Outcome where
  result : Except Failure Result
  lastId : Nat
  log : List LogEntry

/-- Evaluate a unit on an empty heap that goes on counting after an identifier. -/
def run (context : Context) (lastId : Nat) : Outcome :=
  match context.registry.lookup context.method.owner with
  | .error error => ⟨.error (.plain (.registry error)), lastId, []⟩
  | .ok _ =>
      match enter context.rules context.method (.ofHeap (.startingAfter lastId)) with
      | .error error memory => ⟨.error (.plain (.memory error)), memory.heap.lastId, []⟩
      | .ok entry memory =>
          match evaluate context entry.root (entry.frame memory) with
          | .ok result frame => ⟨.ok result, frame.heap.lastId, frame.log⟩
          | .error failure frame => ⟨.error failure, frame.heap.lastId, frame.log⟩

end Custody.Eval
