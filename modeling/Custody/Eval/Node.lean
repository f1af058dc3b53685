import Custody.Eval.Invoke

/-!
# Evaluating nodes

A body is interpreted on the simulated memory.  No values are computed: objects
are allocated, bound, stored and released as an execution would do it.  After
every statement of a block the temporaries that nobody holds are freed.

The object that a node denotes is not acquired by evaluating the node.
-/

namespace Custody.Eval

open Code

namespace Step

/-- Free the temporaries after a statement.  A failure is that of the
statement, which must not be missing then. -/
def sweepAfter (context : Context) (stmt : Node) : Step Unit := fun frame =>
  match onHeap context.rules.sweep frame with
  | .ok () frame => .ok () frame
  | .error failure frame =>
      .error (if stmt.isPresent then failure.locate stmt.pos stmt.kind else .malformed) frame

mutual

/-- Evaluate a node to the object it denotes, if it denotes one. -/
def eval (context : Context) (scope : ScopeId) : Node → Step (Option Ref)
  | .absent => pure none
  | .vacant => throw .malformed
  | .block pos stmts => do
      let child ← onMemory (Memory.openChild scope)
      block context child stmts
      locate pos .block (onMemory (Memory.close context.rules child))
      return none
  | .literal _ _ isNil =>
      if isNil then pure none else some <$> onHeap (Heap.allocate "" false)
  | .reference target => locate target.pos .reference (reference context scope target)
  | .new pos type maker args => locate pos .new do
      let made ← onHeap (Heap.allocate type false)
      if maker = "" then
        attach context scope pos made 0 args
        return some made
      else
        let callee ← method context ⟨type, constructorMember maker⟩
        requireAnalyzed context callee
        let values ← evalNamed context scope args
        let result ← applyEffects context pos callee (some made) values
        return result.or (some made)
  | .localVar pos type declarators => locate pos .localVar do
      declareAll context scope type declarators
      return none
  | .assign pos target value => locate pos .assign do
      let value ← eval context scope value
      match target with
      | none => throw .malformed
      | some target => assign context scope pos target value
      return none
  | .ret _ values => do
      returnAll context scope values
      return none
  | .call pos qualifier member args => locate pos .call do
      let type ← ofRegistry (context.registry.qualifierType context.method qualifier)
      let callee ← method context ⟨type, member⟩
      let receiver ← callReceiver context scope qualifier
      requireAnalyzed context callee
      let values ← evalAll context scope args
      match ← applyEffects context pos callee receiver values with
      | some result => return some result
      | none =>
          if callee.decl.result = "" then return none
          else some <$> onHeap (Heap.allocate callee.decl.result false)
  | .operation _ _ operands => do
      let _ ← evalAll context scope operands
      some <$> onHeap (Heap.allocate "" false)
  | .unsupported pos construct => do
      skip context pos construct
      return none
  | .alien pos kind => do
      skip context pos kind.name
      return none
  termination_by structural node => node

/-- Evaluate statements, and free the temporaries after each of them. -/
def block (context : Context) (scope : ScopeId) : List Node → Step Unit
  | [] => pure ()
  | stmt :: rest => do
      let _ ← eval context scope stmt
      sweepAfter context stmt
      block context scope rest
  termination_by structural stmts => stmts

/-- Evaluate nodes from left to right. -/
def evalAll (context : Context) (scope : ScopeId) : List Node → Step (List (Option Ref))
  | [] => pure []
  | node :: rest => do
      let value ← eval context scope node
      return value :: (← evalAll context scope rest)
  termination_by structural nodes => nodes

/-- Evaluate named arguments from left to right. -/
def evalNamed (context : Context) (scope : ScopeId) :
    List (String × Node) → Step (List (Option Ref))
  | [] => pure []
  | (_, node) :: rest => do
      let value ← eval context scope node
      return value :: (← evalNamed context scope rest)
  termination_by structural args => args

/-- Attach arguments to a new object as fields.  An argument without a name is
attached under its number. -/
def attach (context : Context) (scope : ScopeId) (pos : Int) (owner : Ref) (index : Nat) :
    List (String × Node) → Step Unit
  | [] => pure ()
  | (name, node) :: rest => do
      match ← eval context scope node with
      | none => pure ()
      | some value =>
          taint pos (some value)
          onHeap <| context.rules.setField (some owner)
            (if name = "" then "$" ++ toString index else name) (some value)
      attach context scope pos owner (index + 1) rest
  termination_by structural args => args

/-- Declare local variables with their initial values. -/
def declareAll (context : Context) (scope : ScopeId) (type : String) :
    List (String × Node) → Step Unit
  | [] => pure ()
  | (name, node) :: rest => do
      let value ← eval context scope node
      let _ ← onMemory (Memory.declare context.rules scope name type value)
      declareAll context scope type rest
  termination_by structural declarators => declarators

/-- Evaluate the values of a return. -/
def returnAll (context : Context) (scope : ScopeId) : List Node → Step Unit
  | [] => pure ()
  | node :: rest => do
      returned (← eval context scope node)
      returnAll context scope rest
  termination_by structural values => values

end

end Step

end Custody.Eval
