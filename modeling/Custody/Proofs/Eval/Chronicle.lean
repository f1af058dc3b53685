import Custody.Proofs.Eval.Omission
import Custody.Proofs.Eval.Simulation

/-!
# The chronicle of an evaluation

`Chronicle.eval` evaluates a node as `Step.eval` does, and also lists the nodes whose
evaluation is over.  It does the same to the frame and fails where the evaluation fails; if it
does not fail, every node below, apart from the targets of assignments, is on the list once,
and what is reported as passed over is what the nodes on the list stand for.
-/

namespace Custody

open Code

/-- The statements of a method. -/
def Code.MethodDecl.stmts (decl : MethodDecl) : List Node :=
  match decl.body with
  | some block => block.stmts
  | none => []

namespace Eval

/-- A step that lists the nodes that are done. -/
abbrev Chronicle : Type → Type := StateT (List Node) Step

namespace Chronicle

variable {α β : Type}

/-- A node is done after a step. -/
def noting (node : Node) (step : Chronicle α) : Chronicle α := do
  let result ← step
  modify (· ++ [node])
  return result

/-- Name a node for the failure of a step. -/
def locate (pos : Int) (kind : Kind) (step : Chronicle α) : Chronicle α :=
  fun seen => Step.locate pos kind (step seen)

mutual

/-- Evaluate a node and list what is done. -/
def eval (context : Context) (scope : ScopeId) : Node → Chronicle (Option Ref)
  | .absent => pure none
  | .vacant => throw .malformed
  | node@(.block pos stmts) => noting node do
      let child ← Step.onMemory (Memory.openChild scope)
      block context child stmts
      Step.locate pos .block (Step.onMemory (Memory.close context.rules child))
      return none
  | node@(.literal _ _ isNil) => noting node <|
      if isNil then pure none else some <$> liftM (Step.onHeap (Heap.allocate "" false))
  | node@(.reference target) => noting node <|
      liftM (Step.locate target.pos .reference (Step.reference context scope target))
  | node@(.new pos type maker args) => noting node <| locate pos .new do
      let made ← Step.onHeap (Heap.allocate type false)
      if maker = "" then
        attach context scope pos made 0 args
        return some made
      else
        let callee ← Step.method context ⟨type, constructorMember maker⟩
        Step.requireAnalyzed context callee
        let values ← evalNamed context scope args
        let result ← Step.applyEffects context pos callee (some made) values
        return result.or (some made)
  | node@(.localVar pos type declarators) => noting node <| locate pos .localVar do
      declareAll context scope type declarators
      return none
  | node@(.assign pos target value) => noting node <| locate pos .assign do
      let value ← eval context scope value
      match target with
      | none => throw .malformed
      | some target => Step.assign context scope pos target value
      return none
  | node@(.ret _ values) => noting node do
      returnAll context scope values
      return none
  | node@(.call pos qualifier member args) => noting node <| locate pos .call do
      let type ← Step.ofRegistry (context.registry.qualifierType context.method qualifier)
      let callee ← Step.method context ⟨type, member⟩
      let receiver ← Step.callReceiver context scope qualifier
      Step.requireAnalyzed context callee
      let values ← evalAll context scope args
      match ← Step.applyEffects context pos callee receiver values with
      | some result => return some result
      | none =>
          if callee.decl.result = "" then return none
          else some <$> liftM (Step.onHeap (Heap.allocate callee.decl.result false))
  | node@(.operation _ _ operands) => noting node do
      let _ ← evalAll context scope operands
      some <$> liftM (Step.onHeap (Heap.allocate "" false))
  | node@(.unsupported pos construct) => noting node do
      Step.skip context pos construct
      return none
  | node@(.alien pos kind) => noting node do
      Step.skip context pos kind.name
      return none
  termination_by structural node => node

/-- Evaluate statements and list what is done. -/
def block (context : Context) (scope : ScopeId) : List Node → Chronicle Unit
  | [] => pure ()
  | stmt :: rest => do
      let _ ← eval context scope stmt
      Step.sweepAfter context stmt
      block context scope rest
  termination_by structural stmts => stmts

/-- Evaluate nodes from left to right and list what is done. -/
def evalAll (context : Context) (scope : ScopeId) : List Node → Chronicle (List (Option Ref))
  | [] => pure []
  | node :: rest => do
      let value ← eval context scope node
      return value :: (← evalAll context scope rest)
  termination_by structural nodes => nodes

/-- Evaluate named arguments from left to right and list what is done. -/
def evalNamed (context : Context) (scope : ScopeId) :
    List (String × Node) → Chronicle (List (Option Ref))
  | [] => pure []
  | (_, node) :: rest => do
      let value ← eval context scope node
      return value :: (← evalNamed context scope rest)
  termination_by structural args => args

/-- Attach arguments to a new object and list what is done. -/
def attach (context : Context) (scope : ScopeId) (pos : Int) (owner : Ref) (index : Nat) :
    List (String × Node) → Chronicle Unit
  | [] => pure ()
  | (name, node) :: rest => do
      let value ← eval context scope node
      Step.constructAny context pos owner (if name = "" then "$" ++ toString index else name) value
      attach context scope pos owner (index + 1) rest
  termination_by structural args => args

/-- Declare local variables and list what is done. -/
def declareAll (context : Context) (scope : ScopeId) (type : String) :
    List (String × Node) → Chronicle Unit
  | [] => pure ()
  | (name, node) :: rest => do
      let value ← eval context scope node
      let _ ← Step.onMemory (Memory.declare context.rules scope name type value)
      declareAll context scope type rest
  termination_by structural declarators => declarators

/-- Evaluate the values of a return and list what is done. -/
def returnAll (context : Context) (scope : ScopeId) : List Node → Chronicle Unit
  | [] => pure ()
  | node :: rest => do
      Step.returned (← eval context scope node)
      returnAll context scope rest
  termination_by structural values => values

end

/-- Evaluate the body of a unit and list what is done in it. -/
def body (context : Context) (root : ScopeId) : Chronicle ScopeId := do
  let inner ← Step.onMemory (Memory.openChild root)
  match context.method.decl.body with
  | some body => block context inner body.stmts
  | none => pure ()
  return inner

end Chronicle

variable {α β : Type} {nodes parts rest : List Node} {omitted later : List Skipped}

/-- A chronicle does what a step does.  Unless the step fails, it lists these nodes, and these
constructs are reported as passed over. -/
structure Lists (nodes : List Node) (omitted : List Skipped) (chronicle : Chronicle α)
    (step : Step α) : Prop where
  run : ∀ seen, chronicle.run seen = (fun result => (result, seen ++ nodes)) <$> step
  skips : Skips omitted step

namespace Lists

theorem throw (failure : Failure) :
    Lists nodes omitted (throw failure : Chronicle α) (throw failure) where
  run _ := rfl
  skips := .throw failure

/-- A step that lists nothing. -/
theorem lift {step : Step α} (skips : Skips omitted step) :
    Lists [] omitted (liftM step) step where
  run seen := by
    simp only [List.append_nil]
    rw [map_eq_pure_bind]
    rfl
  skips := skips

theorem elementary {step : Step α} (elementary : Elementary step) :
    Lists [] [] (liftM step) step := lift elementary.skips

theorem pure (result : α) : Lists [] [] (Pure.pure result) (Pure.pure result) where
  run seen := by rw [StateT.run_pure, map_pure, List.append_nil]
  skips := .pure result

section Sequences

variable {chronicle : Chronicle α} {step : Step α} {next : α → Chronicle β} {goOn : α → Step β}

theorem bind (first : Lists nodes omitted chronicle step)
    (second : ∀ result, Lists rest later (next result) (goOn result)) :
    Lists (nodes ++ rest) (omitted ++ later) (chronicle >>= next) (step >>= goOn) where
  run seen := by
    rw [StateT.run_bind, first.run seen, bind_map_left, map_bind]
    refine bind_congr fun result => ?_
    rw [(second result).run, List.append_assoc]
  skips := first.skips.bind fun result => (second result).skips

/-- Nothing more is done in the rest, though something may be passed over. -/
theorem reporting (first : Lists nodes omitted chronicle step)
    (second : ∀ result, Lists [] later (next result) (goOn result)) :
    Lists nodes (omitted ++ later) (chronicle >>= next) (step >>= goOn) := by
  rw [← List.append_nil nodes]
  exact first.bind second

theorem done (first : Lists nodes omitted chronicle step)
    (second : ∀ result, Lists [] [] (next result) (goOn result)) :
    Lists nodes omitted (chronicle >>= next) (step >>= goOn) := by
  rw [← List.append_nil omitted]
  exact first.reporting second

/-- Two lists of nodes, each of which is reported. -/
theorem append (first : Lists nodes (Node.omissions nodes) chronicle step)
    (second : ∀ result, Lists rest (Node.omissions rest) (next result) (goOn result)) :
    Lists (nodes ++ rest) (Node.omissions (nodes ++ rest)) (chronicle >>= next)
      (step >>= goOn) := by
  rw [Node.omissions, List.filterMap_append]
  exact first.bind second

theorem map (change : α → β) (first : Lists nodes omitted chronicle step) :
    Lists nodes omitted (change <$> chronicle) (change <$> step) := by
  rw [map_eq_pure_bind, map_eq_pure_bind]
  exact first.done fun result => pure _

theorem locate {pos : Int} {kind : Kind} (first : Lists nodes omitted chronicle step) :
    Lists nodes omitted (chronicle.locate pos kind) (Step.locate pos kind step) where
  run seen := by
    funext frame
    change Step.locate pos kind (chronicle.run seen) frame = _
    rw [first.run seen]
    simp only [Step.locate, Functor.map, EStateM.map]
    cases step frame <;> rfl
  skips := first.skips.locate

theorem noting (node : Node) (first : Lists parts omitted chronicle step) :
    Lists (parts ++ [node]) omitted (chronicle.noting node) step where
  run seen := by
    rw [Chronicle.noting, StateT.run_bind, first.run seen, bind_map_left, map_eq_pure_bind]
    refine bind_congr fun result => ?_
    rw [← List.append_assoc]
    rfl
  skips := first.skips

/-- A node that is not passed over itself: what is reported for it is reported for its parts. -/
theorem whole (node : Node) (kept : node.omission? = none)
    (first : Lists parts (Node.omissions parts) chronicle step) :
    Lists (parts ++ [node]) (Node.omissions (parts ++ [node])) (chronicle.noting node) step := by
  rw [Node.omissions, List.filterMap_append, List.filterMap_cons_none kept, List.filterMap_nil,
    List.append_nil]
  exact first.noting node

end Sequences

mutual

/-- The nodes below a node are done once, in the order of their parts, and the node itself
after them. -/
theorem eval (context : Context) (scope : ScopeId) :
    (node : Node) →
    Lists node.postorder (Node.omissions node.postorder) (Chronicle.eval context scope node)
      (Step.eval context scope node)
  | .absent => by
      rw [Chronicle.eval, Step.eval]
      exact pure none
  | .vacant => by
      rw [Chronicle.eval, Step.eval]
      exact throw _
  | .block pos stmts => by
      rw [Chronicle.eval, Step.eval]
      refine whole _ rfl (bind (elementary (.onMemory _)) fun child => ?_)
      refine (block context child stmts).done fun _ => ?_
      exact (lift (Elementary.onMemory _).skips.locate).done fun _ => pure _
  | .literal pos value isNil => by
      rw [Chronicle.eval, Step.eval]
      have alone : Lists [] [] (if isNil then Pure.pure none else
          some <$> liftM (Step.onHeap (Heap.allocate "" false)) : Chronicle (Option Ref))
          (if isNil then Pure.pure none else some <$> Step.onHeap (Heap.allocate "" false)) := by
        split
        · exact pure none
        · exact map _ (elementary (.onHeap _))
      exact whole _ rfl alone
  | .reference target => by
      rw [Chronicle.eval, Step.eval]
      exact whole _ rfl (lift (Elementary.reference target).skips.locate)
  | .new pos type maker args => by
      rw [Chronicle.eval, Step.eval]
      refine whole _ rfl (locate (bind (elementary (.onHeap _)) fun made => ?_))
      split
      · exact (attach context scope pos made 0 args).done fun _ => pure _
      · refine (elementary (.method _)).bind fun callee => ?_
        refine (elementary (.requireAnalyzed callee)).bind fun _ => ?_
        refine (evalNamed context scope args).done fun values => ?_
        exact (elementary (.applyEffects pos callee _ values)).done fun _ => pure _
  | .localVar pos type declarators => by
      rw [Chronicle.eval, Step.eval]
      exact whole _ rfl (locate ((declareAll context scope type declarators).done fun _ => pure _))
  | .assign pos none value => by
      rw [Chronicle.eval, Step.eval]
      refine whole _ rfl (locate ((eval context scope value).done fun _ => ?_))
      exact (throw _).done fun _ => pure _
  | .assign pos (some target) value => by
      rw [Chronicle.eval, Step.eval, Node.postorder, Node.omissions, List.filterMap_append]
      refine noting _ (locate ((eval context scope value).reporting fun object => ?_))
      exact (lift (.assign pos target value object)).done fun _ => pure _
  | .ret pos values => by
      rw [Chronicle.eval, Step.eval]
      exact whole _ rfl ((returnAll context scope values).done fun _ => pure _)
  | .call pos qualifier member args => by
      rw [Chronicle.eval, Step.eval]
      refine whole _ rfl (locate ((elementary (.ofRegistry _)).bind fun type => ?_))
      refine (elementary (.method _)).bind fun callee => ?_
      refine (elementary (.callReceiver qualifier)).bind fun receiver => ?_
      refine (elementary (.requireAnalyzed callee)).bind fun _ => ?_
      refine (evalAll context scope args).done fun values => ?_
      refine (elementary (.applyEffects pos callee receiver values)).done fun result => ?_
      cases result with
      | some result => exact pure _
      | none =>
          dsimp only
          split
          · exact pure _
          · exact map _ (elementary (.onHeap _))
  | .operation pos op operands => by
      rw [Chronicle.eval, Step.eval]
      refine whole _ rfl ((evalAll context scope operands).done fun _ => ?_)
      exact map _ (elementary (.onHeap _))
  | .unsupported pos construct => by
      rw [Chronicle.eval, Step.eval]
      exact noting _ ((lift (.skip context pos construct)).done fun _ => pure _)
  | .alien pos kind => by
      rw [Chronicle.eval, Step.eval]
      exact noting _ ((lift (.skip context pos kind.name)).done fun _ => pure _)
  termination_by structural node => node

theorem block (context : Context) (scope : ScopeId) :
    (stmts : List Node) →
    Lists (Node.postorderAll stmts) (Node.omissions (Node.postorderAll stmts))
      (Chronicle.block context scope stmts) (Step.block context scope stmts)
  | [] => by
      rw [Chronicle.block, Step.block]
      exact pure ()
  | stmt :: rest => by
      rw [Chronicle.block, Step.block]
      refine (eval context scope stmt).append fun _ => ?_
      exact (lift (.sweepAfter stmt)).bind fun _ => block context scope rest
  termination_by structural stmts => stmts

theorem evalAll (context : Context) (scope : ScopeId) :
    (nodes : List Node) →
    Lists (Node.postorderAll nodes) (Node.omissions (Node.postorderAll nodes))
      (Chronicle.evalAll context scope nodes) (Step.evalAll context scope nodes)
  | [] => by
      rw [Chronicle.evalAll, Step.evalAll]
      exact pure _
  | node :: rest => by
      rw [Chronicle.evalAll, Step.evalAll]
      refine (eval context scope node).append fun value => ?_
      exact (evalAll context scope rest).done fun _ => pure _
  termination_by structural nodes => nodes

theorem evalNamed (context : Context) (scope : ScopeId) :
    (args : List (String × Node)) →
    Lists (Node.postorderNamed args) (Node.omissions (Node.postorderNamed args))
      (Chronicle.evalNamed context scope args) (Step.evalNamed context scope args)
  | [] => by
      rw [Chronicle.evalNamed, Step.evalNamed]
      exact pure _
  | (name, node) :: rest => by
      rw [Chronicle.evalNamed, Step.evalNamed]
      refine (eval context scope node).append fun value => ?_
      exact (evalNamed context scope rest).done fun _ => pure _
  termination_by structural args => args

theorem attach (context : Context) (scope : ScopeId) (pos : Int) (owner : Ref) (index : Nat) :
    (args : List (String × Node)) →
    Lists (Node.postorderNamed args) (Node.omissions (Node.postorderNamed args))
      (Chronicle.attach context scope pos owner index args)
      (Step.attach context scope pos owner index args)
  | [] => by
      rw [Chronicle.attach, Step.attach]
      exact pure ()
  | (name, node) :: rest => by
      rw [Chronicle.attach, Step.attach_cons]
      refine (eval context scope node).append fun value => ?_
      refine (elementary (.constructAny pos owner _ value)).bind fun _ => ?_
      exact attach context scope pos owner (index + 1) rest
  termination_by structural args => args

theorem declareAll (context : Context) (scope : ScopeId) (type : String) :
    (declarators : List (String × Node)) →
    Lists (Node.postorderNamed declarators) (Node.omissions (Node.postorderNamed declarators))
      (Chronicle.declareAll context scope type declarators)
      (Step.declareAll context scope type declarators)
  | [] => by
      rw [Chronicle.declareAll, Step.declareAll]
      exact pure ()
  | (name, node) :: rest => by
      rw [Chronicle.declareAll, Step.declareAll]
      refine (eval context scope node).append fun value => ?_
      exact (elementary (.onMemory _)).bind fun _ => declareAll context scope type rest
  termination_by structural declarators => declarators

theorem returnAll (context : Context) (scope : ScopeId) :
    (values : List Node) →
    Lists (Node.postorderAll values) (Node.omissions (Node.postorderAll values))
      (Chronicle.returnAll context scope values) (Step.returnAll context scope values)
  | [] => by
      rw [Chronicle.returnAll, Step.returnAll]
      exact pure ()
  | node :: rest => by
      rw [Chronicle.returnAll, Step.returnAll]
      refine (eval context scope node).append fun value => ?_
      exact (elementary (.returned value)).bind fun _ => returnAll context scope rest
  termination_by structural values => values

end

/-- The nodes of a body are done once, in the order of their parts. -/
theorem body (context : Context) (root : ScopeId) :
    Lists (Node.postorderAll context.method.decl.stmts)
      (Node.omissions (Node.postorderAll context.method.decl.stmts))
      (Chronicle.body context root) (Eval.body context root) := by
  unfold Chronicle.body Eval.body MethodDecl.stmts
  refine (elementary (.onMemory _)).bind fun inner => ?_
  cases context.method.decl.body with
  | none => exact (pure ()).done fun _ => pure inner
  | some declared => exact (block context inner declared.stmts).done fun _ => pure inner

end Lists

/-! ## Units -/

/-- Nothing is passed over without a report.  The evaluation of a body does every node of it
once, parts from left to right before the whole, and leaves out none but the targets of
assignments.  What a unit reports is what these nodes stand for, in the same order, with one
report for each of them. -/
theorem skipped_of_run {context : Context} {lastId : Nat} {result : Result}
    (done : (run context lastId).result = .ok result) :
    (∀ root, (Chronicle.body context root).run [] =
      (fun inner => (inner, Node.postorderAll context.method.decl.stmts)) <$> body context root) ∧
    (Node.postorderAll context.method.decl.stmts ++
        Node.targets (Node.preorderAll context.method.decl.stmts)).Perm
      (Node.preorderAll context.method.decl.stmts) ∧
    result.skipped = Node.omissions (Node.postorderAll context.method.decl.stmts) ∧
    result.skipped.Perm (Node.omissions (Node.preorderAll context.method.decl.stmts)) := by
  obtain ⟨_, _, entry, memory, inner, frame, _, _, finished, _, rfl⟩ := run_eq_ok done
  have reported : frame.result.skipped =
      Node.omissions (Node.postorderAll context.method.decl.stmts) :=
    (Lists.body context entry.root).skips finished
  refine ⟨fun root => (Lists.body context root).run [], Node.perm_postorderAll _, reported, ?_⟩
  rw [reported]
  exact Node.perm_omissions _

/-- A method that assigns its receiver after two constructs of other languages, and returns
a third. -/
def muddle : MethodDecl :=
  .plain "muddle" [
    .block 1 [.assign 2 (some ⟨2, "", this⟩)
      (.operation 3 "+" [.unsupported 3 "yield", .alien 4 ⟨42⟩])],
    .ret 5 [.new 5 "Cell" "" [("next", .unsupported 6 "await")]]]

/-- The only method of a class. -/
def muddling : Context :=
  .counting (.ofProgram ⟨[⟨0, "Cell", "", [⟨0, "Cell", ["next"]⟩], [muddle]⟩]⟩) ∅
    (.ofDecl "Cell" muddle)

theorem skipped_of_run_muddle :
    ∃ result, (run muddling 0).result = .ok result ∧
      result.skipped =
        [⟨3, "yield"⟩, ⟨4, "Kind(42)"⟩, ⟨2, "receiver assignment"⟩, ⟨6, "await"⟩] := by
  have returns : (run muddling 0).result.toOption.isSome = true := by decide +kernel
  cases done : (run muddling 0).result with
  | error failure =>
      rw [done] at returns
      cases returns
  | ok result =>
      refine ⟨result, rfl, (skipped_of_run done).2.2.1.trans ?_⟩
      decide +kernel

end Eval

end Custody
