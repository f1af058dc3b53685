import Custody.Proofs.Lowering.Expressions

/-!
# Steps of the lowering

A step of the lowering takes the names given so far and answers with the names given
then.  Only declarations give names.  Values and targets of assignments leave them as
they are, and become one of a few shapes of nodes.
-/

namespace Custody.Lowering

open Source

section Steps

variable {α β : Type}

@[simp] theorem Action.bind_apply (action : Action α) (next : α → Action β) (names : Names) :
    (action >>= next) names = next (action names).1 (action names).2 := rfl

@[simp] theorem Action.pure_apply (result : α) (names : Names) :
    (pure result : Action α) names = (result, names) := rfl

@[simp] theorem Action.map_apply (change : α → β) (action : Action α) (names : Names) :
    (change <$> action) names = (change (action names).1, (action names).2) := rfl

theorem Action.mapM_nil (step : α → Action β) (names : Names) :
    ([] : List α).mapM step names = ([], names) := rfl

theorem Action.mapM_cons (step : α → Action β) (first : α) (rest : List α) (names : Names) :
    (first :: rest).mapM step names =
      ((step first names).1 :: (rest.mapM step (step first names).2).1,
        (rest.mapM step (step first names).2).2) := by
  rw [List.mapM_cons]
  rfl

end Steps

/-- The scope of expressions with some names given. -/
def Unit.withNames (unit : Unit) (names : Names) : Scope := ⟨unit.context, unit.receiver, names⟩

theorem Unit.scope_apply (unit : Unit) (names : Names) :
    unit.scope names = (unit.withNames names, names) := rfl

theorem Unit.expr_apply (unit : Unit) (value : Expr) (names : Names) :
    unit.expr value names = ((unit.withNames names).expr value, names) := rfl

theorem Unit.mapM_expr (unit : Unit) (values : List Expr) (names : Names) :
    values.mapM unit.expr names = (values.map (unit.withNames names).expr, names) := by
  induction values with
  | nil => rfl
  | cons value rest ih => rw [Action.mapM_cons, Unit.expr_apply, ih, List.map_cons]

/-- The values of an assignment are lowered expressions, or there is none. -/
theorem Unit.values_cases (unit : Unit) (right : List Expr) (count : Nat) (names : Names) :
    (unit.values right count names).2 = names ∧
      ∀ node ∈ (unit.values right count names).1,
        node = .absent ∨ ∃ value ∈ right, node = (unit.withNames names).expr value := by
  unfold Unit.values
  split
  next =>
    rw [Unit.mapM_expr]
    refine ⟨rfl, ?_⟩
    intro node member
    obtain ⟨value, listed, rfl⟩ := List.mem_map.1 member
    exact .inr ⟨value, listed, rfl⟩
  next =>
    split
    next value _ =>
      refine ⟨rfl, ?_⟩
      intro node member
      rcases List.mem_cons.1 member with rfl | member
      · exact .inr ⟨value, .head _, rfl⟩
      · exact .inl (List.eq_of_mem_replicate member)
    next =>
      refine ⟨rfl, ?_⟩
      intro node member
      exact .inl (List.eq_of_mem_replicate member)

/-- There is a value for every target. -/
theorem Unit.le_length_values (unit : Unit) (right : List Expr) (count : Nat) (names : Names) :
    count ≤ (unit.values right count names).1.length := by
  unfold Unit.values
  split
  next same => simp [Unit.mapM_expr, same]
  next =>
    split
    next => simp; omega
    next => simp

/-- What the assignment of a value to a target becomes. -/
inductive Unit.Stored (unit : Unit) (names : Names) (target : Expr) (value : Code.Node) :
    List Code.Node → Prop where
  | ignored {typing : Option Typing} {name : Ident} (inside : target.unparen = .ident typing name) :
      Stored unit names target value (Unit.computed value)
  | discarded {inner : Expr} (inside : target.unparen = inner) (construct : String) :
      Stored unit names target value (Unit.computed value ++ [.unsupported inner.pos construct])
  | bound {typing : Option Typing} {name : Ident} {known : String}
      (inside : target.unparen = .ident typing name)
      (named : (unit.withNames names).nameOf? name.entity? = some known) :
      Stored unit names target value [.assign name.pos (some ⟨name.pos, "", known⟩) value]
  | field {pos : Int} {typing : Option Typing} {base : Expr} {name : String} {namePos : Int}
      {used : Option EntityId} {selection : Option Selection} {reference : Code.Reference}
      (inside : target.unparen = .selector pos typing base name namePos used selection)
      (found : (unit.withNames names).fieldRef? ((unit.withNames names).path? base) namePos
        selection = some reference) :
      Stored unit names target value [.assign namePos (some reference) value]

theorem Unit.store_cases (unit : Unit) (target : Expr) (value : Code.Node) (names : Names) :
    ∃ nodes, unit.store target value names = (nodes, names) ∧
      unit.Stored names target value nodes := by
  unfold Unit.store
  simp only [Action.bind_apply, Unit.scope_apply]
  cases inside : target.unparen with
  | ident typing name =>
      dsimp only
      split
      next => exact ⟨_, rfl, .ignored inside⟩
      next =>
        cases named : (unit.withNames names).nameOf? name.entity? with
        | some known => exact ⟨_, rfl, .bound inside named⟩
        | none => exact ⟨_, rfl, .discarded inside _⟩
  | selector pos typing base name namePos used selection =>
      dsimp only
      cases found : (unit.withNames names).fieldRef? ((unit.withNames names).path? base) namePos
          selection with
      | some reference => exact ⟨_, rfl, .field inside found⟩
      | none => exact ⟨_, rfl, .discarded inside _⟩
  | plain pos typing kind =>
      cases kind with
      | _ => exact ⟨_, rfl, .discarded inside _⟩
  | _ => exact ⟨_, rfl, .discarded inside _⟩

/-- The names after a variable has been given one. -/
def Names.give (names : Names) (id : EntityId) (entity : Entity) : Names :=
  ⟨names.given.insert id (names.free (Names.wish entity)),
    names.taken.add (names.free (Names.wish entity))⟩

theorem Names.of?_give (names : Names) (id : EntityId) (entity : Entity) (other : EntityId) :
    (names.give id entity).of? other =
      if other = id then some (names.free (Names.wish entity)) else names.of? other := by
  rw [Names.of?, Names.give, Table.find?_insert, Names.of?]
  simp only [Std.LawfulEqOrd.compare_eq_iff_eq]

/-- A variable that is known is declared under a name that was free. -/
theorem Unit.localVar_cases (unit : Unit) (id : EntityId) (init : Code.Node) (names : Names) :
    (unit.context.package.entity? id = none ∧ unit.localVar id init names = (.absent, names)) ∨
      ∃ entity, unit.context.package.entity? id = some entity ∧
        unit.localVar id init names =
          (.localVar entity.pos (unit.context.typeName (unit.context.entityType id))
            [(names.free (Names.wish entity), init)], names.give id entity) := by
  unfold Unit.localVar
  cases known : unit.context.package.entity? id with
  | none => exact .inl ⟨rfl, rfl⟩
  | some entity => exact .inr ⟨entity, rfl, rfl⟩

/-- Declare a variable as the only node. -/
def Unit.localVars (unit : Unit) (id : EntityId) (init : Code.Node) : Action (List Code.Node) := do
  return [← unit.localVar id init]

/-- The initial value of a variable is the one given, or an object of its class if none is. -/
theorem Unit.declareVar_cases (unit : Unit) (hasValues : Bool) (name : Ident) (value : Code.Node) :
    (∃ id init, name.introduced? = some id ∧
        (init = value ∨
          value.isPresent = false ∧ init = unit.zero name.pos (unit.context.entityType id)) ∧
        unit.declareVar hasValues name value = unit.localVars id init) ∨
      (name.introduced? = none ∧
        unit.declareVar hasValues name value = pure (Unit.computed value)) := by
  unfold Unit.declareVar Ident.introduced?
  cases name.defined with
  | none => exact .inr ⟨by split <;> rfl, rfl⟩
  | some id =>
      by_cases blank : name.name = "_"
      · exact .inr ⟨by simp [blank], by simp [blank]⟩
      · refine .inl ⟨id, if value.isPresent || hasValues then value
          else unit.zero name.pos (unit.context.entityType id), by simp [blank], ?_, ?_⟩
        · split
          · exact .inl rfl
          next missing =>
            exact .inr ⟨(Bool.or_eq_false_iff.1 (Bool.eq_false_iff.2 missing)).1, rfl⟩
        · simp only [blank, ↓reduceIte]
          rfl

/-- A target is declared or assigned. -/
theorem Unit.assignOne_eq (unit : Unit) (defines : Bool) (target : Expr) (value : Code.Node) :
    unit.assignOne defines target value =
      match target.introduced? defines with
      | some id => unit.localVars id value
      | none => unit.store target value := by
  unfold Unit.assignOne
  split
  next typing pos name id used =>
    cases defines with
    | false => rfl
    | true =>
        by_cases blank : name = "_"
        · simp [Expr.introduced?, Ident.introduced?, blank]
        · simp only [Expr.introduced?, Ident.introduced?, blank, Bool.true_and, ne_eq,
            not_false_eq_true, decide_true, ↓reduceIte]
          rfl
  next other =>
    have none : target.introduced? defines = none := by
      cases target with
      | ident typing name =>
          obtain ⟨pos, name, defined, used⟩ := name
          cases defined with
          | none => simp [Expr.introduced?, Ident.introduced?]
          | some id => exact absurd rfl (other _ _ _ _ _)
      | _ => rfl
    rw [none]

/-- The element that a range assigns. -/
def Unit.element (unit : Unit) (target : Expr) : Code.Node :=
  if unit.context.isClass (unit.context.typeOf target) then
    .unsupported target.pos "range element"
  else .literal target.pos "" false

/-- A key or value of a range is declared, assigned or left out. -/
theorem Unit.rangeElement_cases (unit : Unit) (defines : Bool) (target : Expr) :
    (∃ id, target.introduced? defines = some id ∧
        unit.rangeElement defines (some target) = unit.localVars id (unit.element target)) ∨
      (target.introduced? defines = none ∧
        (unit.rangeElement defines (some target) = unit.store target (unit.element target) ∨
          unit.rangeElement defines (some target) = pure [])) := by
  cases target with
  | ident typing name =>
      obtain ⟨pos, name, defined, used⟩ := name
      simp only [Unit.rangeElement, Expr.introduced?, Ident.introduced?]
      cases defines with
      | false => exact .inr ⟨rfl, .inl rfl⟩
      | true =>
          by_cases blank : name = "_"
          · exact .inr ⟨by simp [blank], .inl (by simp [blank, Unit.element])⟩
          · cases defined with
            | none => exact .inr ⟨by simp, .inr (by simp [blank])⟩
            | some id => exact .inl ⟨id, by simp [blank], by simp [blank]; rfl⟩
  | _ => exact .inr ⟨rfl, .inl rfl⟩

end Custody.Lowering
