import Custody.Lowering.Stmt
import Custody.Proofs.Code.Positions
import Custody.Proofs.Source.Scoping

/-!
# What expressions become

An expression is lowered together with the expressions in it, and the names of
variables stay as they are meanwhile.  `Scope.Respects` lists the nodes that this
makes, with what may be assumed of the expression each comes from; whatever all of
them have then every lowered expression has.
-/

namespace Custody.Lowering

open Source

namespace Scope

/-- What is called has a path: it is a name, or selected from something that has one. -/
def Callee.HasPath : Callee → Prop
  | .name _ _ => True
  | .selected _ _ selection base => selection.isSome = true → base.isSome = true
  | .other _ => False

/-- What the call of something becomes. -/
inductive Called (scope : Scope) (pos : Int) (type : Option Ty) (callee : Callee)
    (args : List Code.Node) : Code.Node → Prop where
  /-- A conversion is its operand. -/
  | converted {arg : Code.Node} (single : args = [arg])
      (conversion : callee.typing?.map Typing.mode = some .type) :
      Called scope pos type callee args arg
  | unsupported (construct : String) :
      Called scope pos type callee args (.unsupported pos construct)
  | operation (op : String) (reached : callee.HasPath) :
      Called scope pos type callee args (.operation pos op args)
  | allocated {typing : Option Typing} {name : Ident} (named : callee = .name typing name)
      (isBuiltin : typing.map Typing.mode = some .builtin)
      (makes : name.name = "new" ∨ name.name = "make") :
      Called scope pos type callee args (.new pos (scope.context.typeName type) "" [])
  | appended (reached : callee.HasPath) : Called scope pos type callee args
      (.new pos (scope.context.typeName type) "" (args.map ("", ·)))
  | constructed {id : EntityId} {entity : Entity} {function : Function} {owner : ClassInfo}
      (found : function? scope.context.package id = some (entity, function))
      (unit : scope.context.unitOf? id = some (owner, true)) (reached : callee.HasPath) :
      Called scope pos type callee args (.new pos owner.name entity.name (args.map ("", ·)))
  | method {typing : Option Typing} {used : Option EntityId} {selection : Selection}
      {base : String} {id : EntityId} {entity : Entity} {function : Function} {owner : ClassInfo}
      {names : List String} (selected : callee = .selected typing used (some selection) (some base))
      (kind : selection.kind = .method) (chosen : selection.entity = some id)
      (found : function? scope.context.package id = some (entity, function))
      (unit : scope.context.unitOf? id = some (owner, false))
      (path : scope.context.fieldPath? selection.receiver selection.indices.dropLast = some names) :
      Called scope pos type callee args
        (.call pos (if ".".intercalate (base :: names) = Code.this then ""
          else ".".intercalate (base :: names)) entity.name args)

section Calls

variable (scope : Scope) (pos : Int) (type : Option Ty) (callee : Callee) (args : List Code.Node)

theorem called_functionCall (reached : callee.HasPath) (id : Option EntityId) :
    Called scope pos type callee args (scope.functionCall pos id args) := by
  unfold functionCall
  split
  · exact .unsupported _
  · split
    · exact .unsupported _
    next found =>
      split
      next unit => exact .constructed found unit reached
      · exact .unsupported _

theorem called_methodCall {typing : Option Typing} {used : Option EntityId}
    {selection : Selection} {base : Option String}
    (selected : callee = .selected typing used (some selection) base)
    (kind : selection.kind = .method) :
    Called scope pos type callee args (scope.methodCall pos selection base args) := by
  unfold methodCall
  split
  · exact .unsupported _
  next id entity function known =>
    obtain ⟨chosenId, chosen, rest⟩ := Option.bind_eq_some_iff.1 known
    obtain ⟨pair, found, same⟩ := Option.map_eq_some_iff.1 rest
    cases same
    split
    next unit =>
      split
      · exact .unsupported _
      next base =>
        split
        · exact .unsupported _
        next path => exact .method selected kind chosen found unit path
    · exact .unsupported _

theorem called_builtinCall (isBuiltin : callee.typing?.map Typing.mode = some .builtin) :
    Called scope pos type callee args (scope.builtinCall pos type callee args) := by
  unfold builtinCall
  split
  · split
    next makes => exact .allocated rfl isBuiltin (by simpa using makes)
    · split
      · exact .appended trivial
      · split
        · exact .unsupported _
        · exact .operation _ trivial
  · exact .unsupported _

/-- A call becomes one of these. -/
theorem called_call : Called scope pos type callee args (scope.call pos type callee args) := by
  unfold call
  split
  next conversion =>
    split
    next arg => exact .converted rfl conversion
    · exact .unsupported _
  next isBuiltin => exact called_builtinCall scope pos type callee args isBuiltin
  · split
    · exact called_functionCall scope pos type (.name _ _) args trivial _
    next selection base _ =>
      split
      next kind => exact called_methodCall scope pos type _ args rfl kind
      · exact .unsupported _
    · exact called_functionCall scope pos type (.selected _ _ none _) args Bool.noConfusion _
    · exact .unsupported _

end Calls

/-- The nodes that expressions become have something, if the expressions are as they
should be and the nodes below have it. -/
structure Respects (scope : Scope) (fits : Expr → Prop) (holds : Code.Node → Prop) : Prop where
  absent : holds .absent
  literal : ∀ pos value isNil, holds (.literal pos value isNil)
  unsupported : ∀ pos construct, holds (.unsupported pos construct)
  operation : ∀ pos op operands, (∀ operand ∈ operands, holds operand) →
    holds (.operation pos op operands)
  ident : ∀ typing name, fits (.ident typing name) → holds (scope.ident name)
  selected : ∀ pos typing base name namePos used selection,
    (Expr.selector pos typing base name namePos used selection).Everywhere fits →
    holds (scope.selected pos namePos base selection)
  composite : ∀ pos typing elements args, fits (.composite pos typing elements) →
    args = scope.arguments ((scope.context.classOf? (typing.bind (·.type))).map (·.fields)) 0
      elements →
    (∀ arg ∈ args, holds arg.2) →
    holds (.new pos (scope.context.typeName (typing.bind (·.type))) "" args)
  call : ∀ pos typing function args nodes,
    (Expr.call pos typing function args).Everywhere fits → nodes = scope.exprs args →
    (∀ node ∈ nodes, holds node) →
    holds (scope.call pos (typing.bind (·.type)) (scope.callee function) nodes)

variable {scope : Scope} {fits : Expr → Prop} {holds : Code.Node → Prop}

theorem constant_eq_literal {value : Expr} {node : Code.Node}
    (isConstant : constant? value = some node) :
    ∃ pos text isNil, node = .literal pos text isNil := by
  unfold constant? at isConstant
  split at isConstant
  · cases isConstant
    exact ⟨_, _, _, rfl⟩
  · cases isConstant
    exact ⟨_, _, _, rfl⟩
  · cases isConstant

namespace Respects

mutual

/-- What the nodes of expressions have, every lowered expression has. -/
theorem expr (respects : scope.Respects fits holds) :
    (value : Expr) → value.Everywhere fits → holds (scope.expr value) := by
  intro value everywhere
  rw [Scope.expr.eq_def]
  split
  next literal isConstant =>
    obtain ⟨pos, text, isNil, rfl⟩ := constant_eq_literal isConstant
    exact respects.literal pos text isNil
  next =>
    match value, everywhere with
    | .missing, _ => exact respects.absent
    | .ident typing name, here => exact respects.ident typing name here
    | .basicLit pos _ text, _ => exact respects.literal pos text false
    | .paren _ _ inner, ⟨_, inside⟩ => exact expr respects inner inside
    | .star _ _ inner, ⟨_, inside⟩ => exact expr respects inner inside
    | .typeAssert _ _ inner, ⟨_, inside⟩ => exact expr respects inner inside
    | .unary pos _ op inner, ⟨_, inside⟩ =>
        dsimp only
        split
        · exact expr respects inner inside
        · split
          · exact respects.unsupported _ _
          · refine respects.operation _ _ _ ?_
            intro operand member
            rw [List.mem_singleton.1 member]
            exact expr respects inner inside
    | .binary pos _ op left right, ⟨_, one, two⟩ =>
        refine respects.operation _ _ _ ?_
        intro operand member
        rcases List.mem_cons.1 member with rfl | member
        · exact expr respects left one
        · rw [List.mem_singleton.1 member]
          exact expr respects right two
    | .selector pos typing base name namePos used selection, inside =>
        exact respects.selected pos typing base name namePos used selection inside
    | .composite pos typing elements, ⟨here, inside⟩ =>
        exact respects.composite pos typing elements _ here rfl
          (arguments respects _ 0 elements inside)
    | .keyValue pos _ _ _, _ => exact respects.unsupported _ _
    | .call pos typing function args, inside =>
        exact respects.call pos typing function args _ inside rfl
          (exprs respects args inside.2.2)
    | .plain pos _ kind, _ =>
        cases kind with
        | _ => exact respects.unsupported _ _
  termination_by structural value => value

theorem exprs (respects : scope.Respects fits holds) :
    (values : List Expr) → EverywhereAll fits values → ∀ node ∈ scope.exprs values, holds node
  | [], _, node, member => by
      rw [Scope.exprs] at member
      cases member
  | value :: rest, ⟨here, later⟩, node, member => by
      rw [Scope.exprs] at member
      rcases List.mem_cons.1 member with rfl | member
      · exact expr respects value here
      · exact exprs respects rest later node member
  termination_by structural values => values

theorem arguments (respects : scope.Respects fits holds) (fields : Option (List StructField))
    (index : Nat) :
    (elements : List Expr) → EverywhereAll fits elements →
    ∀ arg ∈ scope.arguments fields index elements, holds arg.2
  | [], _, arg, member => by
      rw [Scope.arguments] at member
      cases member
  | element :: rest, ⟨here, later⟩, arg, member => by
      rw [Scope.arguments.eq_def] at member
      rcases List.mem_cons.1 member with rfl | member
      · cases element with
        | keyValue pos typing key value => exact expr respects value here.2
        | _ => exact expr respects _ here
      · exact arguments respects fields (index + 1) rest later arg member
  termination_by structural elements => elements

end

end Respects

end Scope

end Custody.Lowering
