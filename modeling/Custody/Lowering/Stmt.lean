import Custody.Lowering.Expr

/-!
# Lowering statements

Statements become lists of nodes.  Control flow is flattened: all branches are
kept, one after the other, each in a block of its own.  A parallel assignment
first takes all values into temporaries.
-/

namespace Custody.Lowering

open Source

/-- The unit whose body is lowered. -/
structure Unit where
  context : Context
  receiver : Option EntityId
  /-- The results of the unit. -/
  results : List EntityId

namespace Unit

/-- The scope of expressions with the names given so far. -/
def scope (unit : Unit) : Action Scope := fun names =>
  (⟨unit.context, unit.receiver, names⟩, names)

/-- Lower an expression. -/
def expr (unit : Unit) (value : Expr) : Action Code.Node := do
  return (← unit.scope).expr value

/-- Declare a variable with an initial value, perhaps absent. -/
def localVar (unit : Unit) (id : EntityId) (init : Code.Node) : Action Code.Node := do
  match unit.context.package.entity? id with
  | none => return .absent
  | some entity =>
      let name ← Action.declare id entity
      return .localVar entity.pos (unit.context.typeName (unit.context.entityType id))
        [(name, init)]

/-- A value that is computed, if there is one. -/
def computed (value : Code.Node) : List Code.Node :=
  if value.isPresent then [value] else []

/-- Compute a value whose target is not looked into. -/
def discard (target : Expr) (value : Code.Node) (construct : String) : List Code.Node :=
  computed value ++ [.unsupported target.pos construct]

/-- Assign a value to a variable or field. -/
def store (unit : Unit) (target : Expr) (value : Code.Node) : Action (List Code.Node) := do
  let scope ← unit.scope
  match target.unparen with
  | .ident typing name =>
      if name.name = "_" then return computed value
      else match scope.nameOf? name.entity? with
        | some known => return [.assign name.pos (some ⟨name.pos, "", known⟩) value]
        | none => return discard (.ident typing name) value "package variable assignment"
  | inner@(.selector _ _ base _ namePos _ selection) =>
      match scope.fieldRef? (scope.path? base) namePos selection with
      | some reference => return [.assign namePos (some reference) value]
      | none => return discard inner value "field assignment of expression"
  | inner@(.star ..) => return discard inner value "indirect assignment"
  | inner@(.plain _ _ .index) => return discard inner value "index assignment"
  | inner => return discard inner value "assignment"

/-- The values of an assignment to a number of targets.  A single value for
several targets belongs to the first. -/
def values (unit : Unit) (right : List Expr) (count : Nat) : Action (List Code.Node) := do
  if right.length = count then right.mapM unit.expr
  else match right with
    | [value] => return (← unit.expr value) :: List.replicate (count - 1) .absent
    | _ => return List.replicate count .absent

/-- The initial object of a variable without an initial value: a variable that
holds an object of a class has one. -/
def zero (unit : Unit) (pos : Int) (type : Option Ty) : Code.Node :=
  if Context.isPointer type then .absent
  else match unit.context.classOf? type with
    | some found => .new pos found.name "" []
    | none => .absent

/-- Declare one variable of a specification. -/
def declareVar (unit : Unit) (hasValues : Bool) (name : Ident) (value : Code.Node) :
    Action (List Code.Node) := do
  match name.defined with
  | some id =>
      if name.name = "_" then return computed value
      else
        let init :=
          if value.isPresent || hasValues then value
          else unit.zero name.pos (unit.context.entityType id)
        return [← unit.localVar id init]
  | none => return computed value

/-- Declare the variables of a specification. -/
def declareSpec (unit : Unit) (spec : ValueSpec) : Action (List Code.Node) := do
  let values ← unit.values spec.values spec.names.length
  let nodes ← (spec.names.zip values).mapM fun (name, value) =>
    unit.declareVar (!spec.values.isEmpty) name value
  return nodes.flatten

/-- Take a value into a temporary variable. -/
def temporary (unit : Unit) (source : Expr) (value : Code.Node) :
    Action (List Code.Node × Code.Node) := do
  if value.isPresent then
    let name ← Action.fresh "$tmp"
    let type := unit.context.typeName (unit.context.typeOf source)
    return ([.localVar source.pos type [(name, value)]], .reference ⟨source.pos, "", name⟩)
  else return ([], value)

/-- Assign a value to one target, which may be declared by this. -/
def assignOne (unit : Unit) (defines : Bool) (target : Expr) (value : Code.Node) :
    Action (List Code.Node) := do
  match target with
  | .ident _ ⟨_, name, some id, _⟩ =>
      if defines && name ≠ "_" then return [← unit.localVar id value]
      else unit.store target value
  | _ => unit.store target value

/-- An assignment of values to targets. -/
def assignAll (unit : Unit) (defines : Bool) (left right : List Expr) :
    Action (List Code.Node) := do
  let values ← unit.values right left.length
  if 1 < left.length && right.length = left.length then
    let taken ← (right.zip values).mapM fun (source, value) => unit.temporary source value
    let stores ← (left.zip (taken.map (·.2))).mapM fun (target, value) =>
      unit.assignOne defines target value
    return (taken.map (·.1)).flatten ++ stores.flatten
  else
    let stores ← (left.zip values).mapM fun (target, value) => unit.assignOne defines target value
    return stores.flatten

/-- An assignment, which may compute the value from the target. -/
def assign (unit : Unit) (op : String) (opPos : Int) (left right : List Expr) :
    Action (List Code.Node) := do
  if op = "=" || op = ":=" then unit.assignAll (op = ":=") left right
  else
    let target := left.headD .missing
    let operands ← [target, right.headD .missing].mapM unit.expr
    unit.store target (.operation opPos op operands)

/-- The values of a return; without values, the named results. -/
def returned (unit : Unit) (pos : Int) (values : List Expr) : Action Code.Node := do
  if values.isEmpty then
    let names := (← get)
    return .ret pos ((unit.results.filterMap names.of?).map fun name => .reference ⟨pos, "", name⟩)
  else return .ret pos (← values.mapM unit.expr)

/-- Assign an element of a range to its key or value. -/
def rangeElement (unit : Unit) (defines : Bool) : Option Expr → Action (List Code.Node)
  | none => pure []
  | some target => do
      let element : Code.Node :=
        if unit.context.isClass (unit.context.typeOf target) then
          .unsupported target.pos "range element"
        else .literal target.pos "" false
      match target with
      | .ident _ ⟨_, name, defined, _⟩ =>
          if defines && name ≠ "_" then
            match defined with
            | some id => return [← unit.localVar id element]
            | none => return []
          else unit.store target element
      | _ => unit.store target element

/-- What stands before the statements of a clause. -/
def clauseHead (unit : Unit) (subject : Option Expr) : ClauseHead → Action (List Code.Node)
  | .cases exprs => exprs.mapM unit.expr
  | .implicit (some id) =>
      match subject with
      | some subject => do return [← unit.localVar id (← unit.expr subject)]
      | none => pure []
  | .implicit none => pure []
  | .communication (some pos) => pure [.unsupported pos "select communication"]
  | .communication none => pure []

mutual

/-- The nodes of a statement. -/
def stmt (unit : Unit) : Stmt → Action (List Code.Node)
  | .empty => pure []
  | .send pos => pure [.unsupported pos "channel send"]
  | .bad pos => pure [.unsupported pos "statement"]
  | .block pos list => do return [.block pos (← stmts unit list)]
  | .expr value => do return [← unit.expr value]
  | .vars specs => do return (← specs.mapM unit.declareSpec).flatten
  | .assign op opPos left right => unit.assign op opPos left right
  | .incDec op opPos target => do
      let operand ← unit.expr target
      unit.store target (.operation opPos op [operand])
  | .ret pos values => do return [← unit.returned pos values]
  | .cond pos init test bodyPos body otherwise => do
      let first ← stmt unit init
      let test ← unit.expr test
      let body ← stmts unit body
      let other ← stmt unit otherwise
      return [.block pos (first ++ [test, .block bodyPos body] ++ other)]
  | .loop pos init test post bodyPos body => do
      let first ← stmt unit init
      let test ← test.toList.mapM unit.expr
      let body ← stmts unit body
      let last ← stmt unit post
      return [.block pos (first ++ test ++ [.block bodyPos body] ++ last)]
  | .range pos defines key value collection bodyPos body => do
      let collection ← unit.expr collection
      let key ← unit.rangeElement defines key
      let value ← unit.rangeElement defines value
      let body ← stmts unit body
      return [.block pos ([collection] ++ key ++ value ++ [.block bodyPos body])]
  | .switch pos init tag clauseList => do
      let first ← stmt unit init
      let tag ← tag.toList.mapM unit.expr
      let blocks ← clauses unit none clauseList
      return [.block pos (first ++ tag ++ blocks)]
  | .typeSwitch pos init binds subject clauseList => do
      let first ← stmt unit init
      let tested ← if binds then pure [] else [subject].mapM unit.expr
      let blocks ← clauses unit (if binds then some subject else none) clauseList
      return [.block pos (first ++ tested ++ blocks)]
  | .select pos clauseList => do return [.block pos (← clauses unit none clauseList)]
  | .labeled inner => stmt unit inner
  termination_by structural stmt => stmt

/-- The nodes of statements. -/
def stmts (unit : Unit) : List Stmt → Action (List Code.Node)
  | [] => pure []
  | first :: rest => do
      let nodes ← stmt unit first
      return nodes ++ (← stmts unit rest)
  termination_by structural stmts => stmts

/-- The block of a clause. -/
def clause (unit : Unit) (subject : Option Expr) : Clause → Action Code.Node
  | .mk pos head body => do
      let first ← unit.clauseHead subject head
      return .block pos (first ++ (← stmts unit body))
  termination_by structural clause => clause

/-- The blocks of clauses. -/
def clauses (unit : Unit) (subject : Option Expr) : List Clause → Action (List Code.Node)
  | [] => pure []
  | first :: rest => do
      let block ← clause unit subject first
      return block :: (← clauses unit subject rest)
  termination_by structural clauses => clauses

end

end Unit

end Custody.Lowering
