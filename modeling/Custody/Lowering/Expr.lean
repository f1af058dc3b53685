import Custody.Lowering.Classes
import Custody.Lowering.Names

/-!
# Lowering expressions

Expressions become nodes of the class language.  Constants are literals, names
are references, calls of units are calls and constructions, and selections are
paths through fields, promoted fields included.  Everything else is kept as an
unsupported construct at its position.
-/

namespace Custody.Lowering

open Source

/-- What the lowering of a body rests on: the package, the receiver of the unit
and the names given so far. -/
structure Scope where
  context : Context
  receiver : Option EntityId
  names : Names

namespace Scope

/-- Is an entity the receiver? -/
def isReceiver (scope : Scope) (entity : Option EntityId) : Bool :=
  scope.receiver.isSome && scope.receiver == entity

/-- The name of a local variable, or of the receiver. -/
def nameOf? (scope : Scope) (entity : Option EntityId) : Option String :=
  if scope.isReceiver entity then some Code.this else entity.bind scope.names.of?

/-- The reference to a selected field of the object at a path. -/
def fieldRef? (scope : Scope) (base : Option String) (namePos : Int)
    (selection : Option Selection) : Option Code.Reference :=
  match base, selection with
  | some base, some ⟨.field, receiver, _, indices⟩ =>
      match scope.context.fieldPath? receiver indices with
      | some names =>
          names.getLast?.map fun member =>
            ⟨namePos, ".".intercalate (base :: names.dropLast), member⟩
      | none => none
  | _, _ => none

/-- The dotted path of a variable or selected field. -/
def path? (scope : Scope) : Expr → Option String
  | .paren _ _ inner => path? scope inner
  | .star _ _ inner => path? scope inner
  | .ident _ name => scope.nameOf? name.entity?
  | .selector _ _ base _ namePos _ selection =>
      (scope.fieldRef? (path? scope base) namePos selection).map (·.path)
  | _ => none

/-- What a name denotes. -/
def ident (scope : Scope) (name : Ident) : Code.Node :=
  match name.entity?.bind scope.context.package.entity? with
  | some ⟨_, _, .var _⟩ =>
      match scope.nameOf? name.entity? with
      | some known => .reference ⟨name.pos, "", known⟩
      | none => .unsupported name.pos "package variable"
  | some ⟨_, _, .function _⟩ => .unsupported name.pos "function value"
  | _ => .literal name.pos name.name false

/-- What is called. -/
inductive Callee where
  | name (typing : Option Typing) (ident : Ident)
  /-- A selected function, with the path of what it is selected from. -/
  | selected (typing : Option Typing) (used : Option EntityId) (selection : Option Selection)
      (base : Option String)
  | other (typing : Option Typing)

/-- What a call calls. -/
def callee (scope : Scope) : Expr → Callee
  | .paren _ _ inner => callee scope inner
  | .ident typing name => .name typing name
  | .selector _ typing base _ _ used selection =>
      .selected typing used selection (scope.path? base)
  | expr => .other expr.typing?

/-- What the type checker knows of what is called. -/
def Callee.typing? : Callee → Option Typing
  | name typing _ | selected typing _ _ _ | other typing => typing

/-- The call of a function that is not looked into. -/
def callOf (pos : Int) (function : Function) : Code.Node :=
  .unsupported pos ("call of " ++ function.fullName)

/-- The call of a function by name: a construction, if it is a constructor. -/
def functionCall (scope : Scope) (pos : Int) (id : Option EntityId) (args : List Code.Node) :
    Code.Node :=
  match id with
  | none => .unsupported pos "dynamic call"
  | some id =>
      match function? scope.context.package id with
      | none => .unsupported pos "dynamic call"
      | some (entity, function) =>
          match scope.context.unitOf? id with
          | some (owner, true) => .new pos owner.name entity.name (args.map ("", ·))
          | _ => callOf pos function

/-- The call of a method. -/
def methodCall (scope : Scope) (pos : Int) (selection : Selection) (base : Option String)
    (args : List Code.Node) : Code.Node :=
  match selection.entity.bind fun id => (function? scope.context.package id).map (id, ·) with
  | none => .unsupported pos "dynamic call"
  | some (id, entity, function) =>
      match scope.context.unitOf? id with
      | some (_, false) =>
          match base with
          | none => .unsupported pos "method call on expression"
          | some base =>
              match scope.context.fieldPath? selection.receiver selection.indices.dropLast with
              | none => callOf pos function
              | some names =>
                  let qualifier := ".".intercalate (base :: names)
                  .call pos (if qualifier = Code.this then "" else qualifier) entity.name args
      | _ => callOf pos function

/-- The call of a predeclared function. -/
def builtinCall (scope : Scope) (pos : Int) (type : Option Ty) (callee : Callee)
    (args : List Code.Node) : Code.Node :=
  match callee with
  | .name _ name =>
      if name.name = "new" || name.name = "make" then
        .new pos (scope.context.typeName type) "" []
      else if name.name = "append" then
        .new pos (scope.context.typeName type) "" (args.map ("", ·))
      else if ["copy", "delete", "clear", "close"].contains name.name then
        .unsupported pos ("builtin " ++ name.name)
      else .operation pos name.name args
  | _ => .unsupported pos "builtin"

/-- A call with its arguments lowered. -/
def call (scope : Scope) (pos : Int) (type : Option Ty) (callee : Callee) (args : List Code.Node) :
    Code.Node :=
  match callee.typing?.map Typing.mode with
  | some .type =>
      match args with
      | [arg] => arg
      | _ => .unsupported pos "conversion"
  | some .builtin => scope.builtinCall pos type callee args
  | _ =>
      match callee with
      | .name _ name => scope.functionCall pos (usedFunction? name.used) args
      | .selected _ _ (some selection) base =>
          if selection.kind = .method then scope.methodCall pos selection base args
          else .unsupported pos "dynamic call"
      | .selected _ used none _ => scope.functionCall pos (usedFunction? used) args
      | .other _ => .unsupported pos "dynamic call"
where
  usedFunction? (used : Option EntityId) : Option EntityId :=
    used.filter fun id => (function? scope.context.package id).isSome

/-- The literal of an expression that is a constant or nil. -/
def constant? (expr : Expr) : Option Code.Node :=
  match expr.typing? with
  | some ⟨.nil, _, _⟩ => some (.literal expr.pos "" true)
  | some ⟨_, _, some value⟩ => some (.literal expr.pos value false)
  | _ => none

/-- A selection that is read. -/
def selected (scope : Scope) (pos namePos : Int) (base : Expr) (selection : Option Selection) :
    Code.Node :=
  if selection.any (·.kind = .method) then .unsupported pos "method value"
  else match scope.fieldRef? (scope.path? base) namePos selection with
    | some reference => .reference reference
    | none => .unsupported pos "selector"

mutual

/-- The node of an expression. -/
def expr (scope : Scope) (value : Expr) : Code.Node :=
  match constant? value with
  | some literal => literal
  | none =>
      match value with
      | .missing => .absent
      | .ident _ name => scope.ident name
      | .basicLit pos _ text => .literal pos text false
      | .paren _ _ inner => expr scope inner
      | .star _ _ inner => expr scope inner
      | .typeAssert _ _ inner => expr scope inner
      | .unary pos _ op inner =>
          if op = "&" then expr scope inner
          else if op = "<-" then .unsupported pos "channel receive"
          else .operation pos op [expr scope inner]
      | .binary pos _ op left right => .operation pos op [expr scope left, expr scope right]
      | .selector pos _ base _ namePos _ selection => scope.selected pos namePos base selection
      | .composite pos typing elements =>
          let type := typing.bind (·.type)
          .new pos (scope.context.typeName type) ""
            (arguments scope ((scope.context.classOf? type).map (·.fields)) 0 elements)
      | .keyValue pos _ _ _ => .unsupported pos "expression"
      | .call pos typing function args =>
          scope.call pos (typing.bind (·.type)) (scope.callee function) (exprs scope args)
      | .plain pos _ kind =>
          match kind with
          | .index | .indexList => .unsupported pos "index expression"
          | .slice => .unsupported pos "slice expression"
          | .funcLit => .unsupported pos "function literal"
          | .other => .unsupported pos "expression"
  termination_by structural value

/-- The nodes of expressions. -/
def exprs (scope : Scope) : List Expr → List Code.Node
  | [] => []
  | value :: rest => expr scope value :: exprs scope rest
  termination_by structural values => values

/-- The elements of a composite.  Elements of a class are named by their key or
by the field at their place. -/
def arguments (scope : Scope) (fields : Option (List StructField)) (index : Nat) :
    List Expr → List (String × Code.Node)
  | [] => []
  | element :: rest =>
      (match element with
        | .keyValue _ _ key value =>
            (if fields.isSome then key.name?.getD "" else "", expr scope value)
        | element =>
            (((fields.bind (·[index]?)).map (·.name)).getD "", expr scope element)) ::
        arguments scope fields (index + 1) rest
  termination_by structural elements => elements

end

end Scope

end Custody.Lowering
