import Custody.Code.Node

/-!
# Walking over nodes

`Node.preorder` lists a node and everything below it, parents before children
and children from left to right; the target of an assignment comes before its
value.  `Node.walk` feeds the same nodes one by one to a visitor with a state of
its own and stops as soon as the visitor says so.
-/

namespace Custody.Code.Node

mutual

/-- The nodes of a tree, parents first and children from left to right.
Missing nodes are left out. -/
def preorder : Node → List Node
  | absent => []
  | vacant => []
  | node@(block _ stmts) => node :: preorderAll stmts
  | node@(new _ _ _ args) => node :: preorderNamed args
  | node@(localVar _ _ declarators) => node :: preorderNamed declarators
  | node@(assign _ target value) =>
      node :: ((target.map reference).toList ++ preorder value)
  | node@(ret _ values) => node :: preorderAll values
  | node@(call _ _ _ args) => node :: preorderAll args
  | node@(operation _ _ operands) => node :: preorderAll operands
  | node@(literal ..) => [node]
  | node@(reference _) => [node]
  | node@(unsupported ..) => [node]
  | node@(alien ..) => [node]
  termination_by structural node => node

/-- The nodes of several trees, one after the other. -/
def preorderAll : List Node → List Node
  | [] => []
  | node :: rest => preorder node ++ preorderAll rest
  termination_by structural nodes => nodes

/-- The nodes of several named trees, one after the other. -/
def preorderNamed : List (String × Node) → List Node
  | [] => []
  | (_, node) :: rest => preorder node ++ preorderNamed rest
  termination_by structural nodes => nodes

end

/-- What a visitor answers: whether to go on, and its next state. -/
abbrev Visit (σ : Type) : Type := Node → σ → Bool × σ

/-- Continue with the next part of a walk unless it has been stopped. -/
def andThen {σ : Type} (step : Bool × σ) (next : σ → Bool × σ) : Bool × σ :=
  if step.1 then next step.2 else step

mutual

/-- Feed the nodes of a tree to a visitor until it stops the walk.  The result
tells whether the walk came to its end. -/
def walk {σ : Type} (visit : Visit σ) : Node → σ → Bool × σ
  | absent, state => (true, state)
  | vacant, state => (true, state)
  | node@(block _ stmts), state => andThen (visit node state) (walkAll visit stmts)
  | node@(new _ _ _ args), state => andThen (visit node state) (walkNamed visit args)
  | node@(localVar _ _ declarators), state =>
      andThen (visit node state) (walkNamed visit declarators)
  | node@(assign _ target value), state =>
      andThen (visit node state) fun state =>
        andThen
          (match target with
            | some target => visit (reference target) state
            | none => (true, state))
          (walk visit value)
  | node@(ret _ values), state => andThen (visit node state) (walkAll visit values)
  | node@(call _ _ _ args), state => andThen (visit node state) (walkAll visit args)
  | node@(operation _ _ operands), state => andThen (visit node state) (walkAll visit operands)
  | node@(literal ..), state => visit node state
  | node@(reference _), state => visit node state
  | node@(unsupported ..), state => visit node state
  | node@(alien ..), state => visit node state
  termination_by structural node => node

/-- Walk over several trees, one after the other. -/
def walkAll {σ : Type} (visit : Visit σ) : List Node → σ → Bool × σ
  | [], state => (true, state)
  | node :: rest, state => andThen (walk visit node state) (walkAll visit rest)
  termination_by structural nodes => nodes

/-- Walk over several named trees, one after the other. -/
def walkNamed {σ : Type} (visit : Visit σ) : List (String × Node) → σ → Bool × σ
  | [], state => (true, state)
  | (_, node) :: rest, state => andThen (walk visit node state) (walkNamed visit rest)
  termination_by structural nodes => nodes

end

/-- Walk over the nodes of a tree that pass a test; the others go by unseen. -/
def walkOnly {σ : Type} (select : Node → Bool) (visit : Visit σ) (node : Node) (state : σ) :
    Bool × σ :=
  walk (fun node state => if select node then visit node state else (true, state)) node state

/-- The first nodes of a walk over the selected nodes, up to a limit; a limit of
`0` is none.  The walk is stopped at the limit. -/
def visited (select : Node → Bool) (limit : Nat) (node : Node) : List Node :=
  (walkOnly select
    (fun node seen => (!(seen.length + 1 == limit), seen ++ [node])) node []).2

end Custody.Code.Node
