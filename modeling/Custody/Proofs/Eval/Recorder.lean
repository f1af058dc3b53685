import Custody.Proofs.Eval.Moves

/-!
# A recorded evaluation

`Recorder.eval` evaluates a node as `Step.eval` does, and also writes down the moves that it
makes.  What is written down is part of the state, so it is there after a failure, too.
-/

namespace Custody.Eval

open Code

/-- A frame, and the moves that have been made. -/
structure Journal where
  frame : Frame
  moves : List Move

/-- Nothing has been written down when a unit is entered. -/
def Entry.journal (entry : Entry) (memory : Memory) : Journal := ⟨entry.frame memory, []⟩

/-- A step that writes down its moves. -/
abbrev Recorder : Type → Type := EStateM Failure Journal

namespace Recorder

variable {α : Type}

/-- The outcome of a step with the moves that are written down then. -/
def written (moves : List Move) : EStateM.Result Failure Frame α → EStateM.Result Failure Journal α
  | .ok result frame => .ok result ⟨frame, moves⟩
  | .error failure frame => .error failure ⟨frame, moves⟩

/-- A step for which some moves are written down. -/
def record (moves : Frame → List Move) (step : Step α) : Recorder α := fun journal =>
  written (journal.moves ++ moves journal.frame) (step journal.frame)

/-- A step that leaves the frame alone. -/
def still (step : Step α) : Recorder α := record (fun _ => []) step

/-- A step that is a move. -/
def as (move : Move) (step : Step α) : Recorder α := record (fun _ => [move]) step

/-- Make a move. -/
def make (context : Context) (move : Move) : Recorder Unit := as move (move.step context)

/-- Name a node for the failure of a step. -/
def locate (pos : Int) (kind : Kind) (recorder : Recorder α) : Recorder α := fun journal =>
  match recorder journal with
  | .ok result journal => .ok result journal
  | .error failure journal => .error (failure.locate pos kind) journal

section Access

variable (context : Context)

/-- Allocate a temporary. -/
def allocate (type : String) : Recorder Ref :=
  as (.allocate type) (Step.onHeap (Heap.allocate type false))

/-- Reading a field is a move if the object there has to be made up. -/
def reading (owner : Ref) (type name : String) (frame : Frame) : List Move :=
  if frame.heap.field? owner name = none ∧ frame.isSettled owner name = false then
    [.materialize owner type name]
  else []

/-- The object in a field, made up if need be. -/
def read (owner : Ref) (type name : String) : Recorder (Option Ref) :=
  record (reading owner type name) (Step.read context owner type name)

/-- Read a field. -/
def field (owner : Option Ref) (ownerType name : String) : Recorder (Option Ref × String) := do
  let type ← still (Step.ofRegistry (context.registry.fieldType ownerType name))
  match owner with
  | none => return (none, type)
  | some owner => return (← read context owner type name, type)

/-- The first segment of a path. -/
def first (scope : ScopeId) (name : String) : Recorder (Option Ref × String) := do
  match ← still (Step.lookup? scope name) with
  | some binding => return (binding.object, binding.type)
  | none => field context (← still (Step.receiver scope)) context.method.owner name

/-- Follow fields from an object. -/
def follow : Option Ref × String → List String → Recorder (Option Ref × String)
  | place, [] => pure place
  | (object, type), name :: rest => do
      follow (← field context object type name) rest

/-- The object that a qualifier denotes, and its declared type. -/
def path (scope : ScopeId) (qualifier : String) : Recorder (Option Ref × String) := do
  let path := Path.parse qualifier
  follow context (← first context scope path.first) path.rest

/-- The object that a reference denotes. -/
def reference (scope : ScopeId) (target : Reference) : Recorder (Option Ref) := do
  if target.qualifier = "" then
    return (← first context scope target.member).1
  else
    let (owner, type) ← path context scope target.qualifier
    return (← field context owner type target.member).1

/-- Assign a field. -/
def store (pos : Int) (owner : Option Ref) (ownerType name : String) (value : Option Ref) :
    Recorder Unit := do
  let _ ← still (Step.ofRegistry (context.registry.fieldType ownerType name))
  match owner with
  | none => make context (.note (.skippedStore context.method.unit (ownerType ++ "." ++ name)))
  | some owner => make context (.store pos owner name value)

/-- Assign a value to a variable or field. -/
def assign (scope : ScopeId) (pos : Int) (target : Reference) (value : Option Ref) :
    Recorder Unit := do
  if target.qualifier ≠ "" then
    let (owner, type) ← path context scope target.qualifier
    store context pos owner type target.member value
  else if target.member = this then
    make context (.skip pos "receiver assignment")
  else
    let journal ← get
    match journal.frame.memory.lookup? scope target.member with
    | some binding => make context (.rebind binding value)
    | none =>
        store context pos (← still (Step.receiver scope)) context.method.owner target.member value

end Access

section Calls

variable (context : Context)

/-- Apply the effects of a unit to the arguments from a position on. -/
def applyArguments (pos : Int) (callee : Method) (receiver : Option Ref) :
    Nat → List (Option Ref) → Option Ref → Recorder (Option Ref)
  | _, [], result => pure result
  | index, value :: rest, result =>
      match callee.paramAt? index with
      | none => pure result
      | some param => do
          match (context.summaries.of callee).param callee.unit param.name with
          | .error error => throw (.plain (.summary error))
          | .ok .passForward =>
              applyArguments pos callee receiver (index + 1) rest (result.or value)
          | .ok .doesChange =>
              match value with
              | none => pure ()
              | some value => make context (.capture pos receiver callee.unit param.name value)
              applyArguments pos callee receiver (index + 1) rest result
          | .ok .doesNotChange => applyArguments pos callee receiver (index + 1) rest result
          | .ok .unknown => throw (.plain (.unknownEffect param.name callee.unit))

/-- Apply the effects of a unit to the objects of a call. -/
def applyEffects (pos : Int) (callee : Method) (receiver : Option Ref)
    (values : List (Option Ref)) : Recorder (Option Ref) := do
  let result ← applyArguments context pos callee receiver 0 values none
  match (context.summaries.of callee).receiver with
  | .doesChange =>
      make context (.taint pos receiver)
      return result
  | .passForward => return result.or receiver
  | .doesNotChange | .unknown => return result

/-- The object on which a call is made. -/
def callReceiver (scope : ScopeId) (qualifier : String) : Recorder (Option Ref) := do
  if qualifier = "" then return (← first context scope this).1
  else return (← path context scope qualifier).1

end Calls

/-- Attach an argument to a new object, if there is one. -/
def constructAny (context : Context) (pos : Int) (owner : Ref) (name : String) :
    Option Ref → Recorder Unit
  | none => pure ()
  | some value => make context (.construct pos owner name value)

mutual

/-- Evaluate a node and write down the moves. -/
def eval (context : Context) (scope : ScopeId) : Node → Recorder (Option Ref)
  | .absent => pure none
  | .vacant => throw .malformed
  | .block pos stmts => do
      let child ← as (.openScope scope) (Step.onMemory (Memory.openChild scope))
      block context child stmts
      locate pos .block (make context (.close child))
      return none
  | .literal _ _ isNil => if isNil then pure none else some <$> allocate ""
  | .reference target => locate target.pos .reference (reference context scope target)
  | .new pos type maker args => locate pos .new do
      let made ← allocate type
      if maker = "" then
        attach context scope pos made 0 args
        return some made
      else
        let callee ← still (Step.method context ⟨type, constructorMember maker⟩)
        still (Step.requireAnalyzed context callee)
        let values ← evalNamed context scope args
        let result ← applyEffects context pos callee (some made) values
        return result.or (some made)
  | .localVar pos type declarators => locate pos .localVar do
      declareAll context scope type declarators
      return none
  | .assign pos target value => locate pos .assign do
      let value ← eval context scope value
      match target with
      | none => throw .malformed
      | some target => assign context scope pos target value
      return none
  | .ret _ values => do
      returnAll context scope values
      return none
  | .call pos qualifier member args => locate pos .call do
      let type ← still (Step.ofRegistry (context.registry.qualifierType context.method qualifier))
      let callee ← still (Step.method context ⟨type, member⟩)
      let receiver ← callReceiver context scope qualifier
      still (Step.requireAnalyzed context callee)
      let values ← evalAll context scope args
      match ← applyEffects context pos callee receiver values with
      | some result => return some result
      | none =>
          if callee.decl.result = "" then return none
          else some <$> allocate callee.decl.result
  | .operation _ _ operands => do
      let _ ← evalAll context scope operands
      some <$> allocate ""
  | .unsupported pos construct => do
      make context (.skip pos construct)
      return none
  | .alien pos kind => do
      make context (.skip pos kind.name)
      return none
  termination_by structural node => node

/-- Evaluate statements and write down the moves, the sweeps among them. -/
def block (context : Context) (scope : ScopeId) : List Node → Recorder Unit
  | [] => pure ()
  | stmt :: rest => do
      let _ ← eval context scope stmt
      as .sweep (Step.sweepAfter context stmt)
      block context scope rest
  termination_by structural stmts => stmts

/-- Evaluate nodes from left to right and write down the moves. -/
def evalAll (context : Context) (scope : ScopeId) : List Node → Recorder (List (Option Ref))
  | [] => pure []
  | node :: rest => do
      let value ← eval context scope node
      return value :: (← evalAll context scope rest)
  termination_by structural nodes => nodes

/-- Evaluate named arguments from left to right and write down the moves. -/
def evalNamed (context : Context) (scope : ScopeId) :
    List (String × Node) → Recorder (List (Option Ref))
  | [] => pure []
  | (_, node) :: rest => do
      let value ← eval context scope node
      return value :: (← evalNamed context scope rest)
  termination_by structural args => args

/-- Attach arguments to a new object and write down the moves. -/
def attach (context : Context) (scope : ScopeId) (pos : Int) (owner : Ref) (index : Nat) :
    List (String × Node) → Recorder Unit
  | [] => pure ()
  | (name, node) :: rest => do
      let value ← eval context scope node
      constructAny context pos owner (if name = "" then "$" ++ toString index else name) value
      attach context scope pos owner (index + 1) rest
  termination_by structural args => args

/-- Declare local variables and write down the moves. -/
def declareAll (context : Context) (scope : ScopeId) (type : String) :
    List (String × Node) → Recorder Unit
  | [] => pure ()
  | (name, node) :: rest => do
      let value ← eval context scope node
      let _ ← as (.declare scope name type value)
        (Step.onMemory (Memory.declare context.rules scope name type value))
      declareAll context scope type rest
  termination_by structural declarators => declarators

/-- Evaluate the values of a return and write down the moves. -/
def returnAll (context : Context) (scope : ScopeId) : List Node → Recorder Unit
  | [] => pure ()
  | node :: rest => do
      make context (.returned (← eval context scope node))
      returnAll context scope rest
  termination_by structural values => values

end

/-- Evaluate the body of a unit and write down the moves. -/
def body (context : Context) (root : ScopeId) : Recorder ScopeId := do
  let inner ← as (.openScope root) (Step.onMemory (Memory.openChild root))
  match context.method.decl.body with
  | some body => block context inner body.stmts
  | none => pure ()
  return inner

/-- Evaluate a unit that has been entered and write down the moves, those by which it is left
among them. -/
def evaluate (context : Context) (root : ScopeId) : Recorder Result := do
  let inner ← body context root
  let journal ← get
  record (leaveMoves context root inner) (leave context root inner)
  return journal.frame.result

end Recorder

end Custody.Eval
