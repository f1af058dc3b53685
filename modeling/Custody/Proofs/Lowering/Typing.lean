import Custody.Proofs.Lowering.WellScoped

/-!
# Well-typed packages

A package comes with its types, and these are not arbitrary: the type of a selection is
that of the field that its indices lead to, a method is selected from the class that
declares it, and so on.  `WellTyped` lists what the lowering relies on.

Dereferences leave no mark on the path of an expression.  `Direct` says that none of them
is missed: what is selected from is a class before a dereference if it is one after it.
-/

namespace Custody.Source

/-- An identifier has no dot and no dollar sign in it. -/
def IsIdentifier (name : String) : Prop := '.' ∉ name.toList ∧ '$' ∉ name.toList

instance (name : String) : Decidable (IsIdentifier name) :=
  inferInstanceAs (Decidable ('.' ∉ name.toList ∧ '$' ∉ name.toList))

theorem IsIdentifier.isName {name : String} (identifier : IsIdentifier name) :
    Code.Path.IsName name := identifier.1

/-- An identifier does not start like a name that is made up. -/
theorem IsIdentifier.head?_ne {name : String} (identifier : IsIdentifier name) :
    name.toList.head? ≠ some '$' := by
  intro first
  exact identifier.2 (List.mem_of_mem_head? first)

/-- The key of an element of a composite, if it is a name. -/
def Expr.key? : Expr → Option String
  | .keyValue _ _ key _ => key.name?
  | _ => none

/-- The type at the end of a path through fields. -/
def endType : Option Ty → List StructField → Option Ty
  | type, [] => type
  | _, field :: rest => endType field.type rest

end Custody.Source

namespace Custody.Lowering

open Source

namespace Context

/-- The fields that indices select one after the other, starting at a class. -/
def fields? (context : Context) : Option Ty → List Nat → Option (List StructField)
  | _, [] => some []
  | type, index :: rest =>
      match context.classOf? type with
      | none => none
      | some found =>
          match found.fields[index]? with
          | none => none
          | some field => (context.fields? field.type rest).map (field :: ·)

theorem fieldPath?_eq (context : Context) (type : Option Ty) (indices : List Nat) :
    context.fieldPath? type indices = (context.fields? type indices).map (·.map (·.name)) := by
  induction indices generalizing type with
  | nil => rfl
  | cons index rest ih =>
      unfold fieldPath? fields?
      cases context.classOf? type with
      | none => rfl
      | some found =>
          cases chosen : found.fields[index]? with
          | none => simp only [chosen, Option.map_none]
          | some field =>
              simp only [chosen, ih, Option.map_map]
              rfl

/-- A path through fields starts at a class. -/
theorem fields?_cons_eq_some {context : Context} {type : Option Ty} {index : Nat}
    {rest : List Nat} {fields : List StructField}
    (chosen : context.fields? type (index :: rest) = some fields) :
    ∃ info field later, context.classOf? type = some info ∧ field ∈ info.fields ∧
      context.fields? field.type rest = some later ∧ fields = field :: later := by
  unfold fields? at chosen
  split at chosen
  · cases chosen
  next info found =>
    split at chosen
    · cases chosen
    next field here =>
      obtain ⟨later, onward, rfl⟩ := Option.map_eq_some_iff.1 chosen
      exact ⟨info, field, later, found, List.mem_of_getElem? here, onward, rfl⟩

/-- Is an entity a variable? -/
def IsVariable (context : Context) (id : EntityId) : Prop :=
  ∃ name pos type, context.package.entity? id = some ⟨name, pos, .var type⟩

/-- A dereference gives the element of a pointer.  Only a type that is declared to be a
pointer can be dereferenced, too, and it is no class. -/
def Dereferences (context : Context) (type result : Option Ty) : Prop :=
  match type.map Ty.unalias with
  | some (.pointer element) => result = some element
  | _ => context.classOf? type = none

/-- The type of an expression is that of what it stands for. -/
def Typed (context : Context) : Expr → Prop
  | .ident typing name => ∀ id ∈ name.entity?, context.IsVariable id →
      ∀ known ∈ typing, known.type = context.entityType id
  | .paren _ typing inner => ∀ known ∈ typing, known.type = context.typeOf inner
  | .star _ typing inner => ∀ known ∈ typing,
      if known.mode = .type then known.type = (context.typeOf inner).map .pointer
      else context.Dereferences (context.typeOf inner) known.type
  | .selector _ typing base _ _ _ (some ⟨.field, receiver, _, indices⟩) =>
      receiver = context.typeOf base ∧ ∀ fields ∈ context.fields? receiver indices,
        (∀ field ∈ fields, field.name ≠ "_") ∧
          ∀ known ∈ typing, known.type = endType receiver fields
  | .selector _ _ base _ _ _ (some ⟨.method, receiver, entity, indices⟩) =>
      receiver = context.typeOf base ∧ ∀ fields ∈ context.fields? receiver indices.dropLast,
        (∀ field ∈ fields, field.name ≠ "_") ∧ ∀ id ∈ entity, ∀ owner,
          context.unitOf? id = some (owner, false) →
          context.classOf? (endType receiver fields) = some owner
  | .composite _ _ elements => ∀ element ∈ elements, ∀ key ∈ element.key?, IsIdentifier key
  | _ => True

/-- A dereference on the way to a selection is of a pointer to a class, or what it gives
is no class either. -/
def Reaches (context : Context) : Expr → Prop
  | .paren _ _ inner => context.Reaches inner
  | .star pos typing inner =>
      (context.isClass (context.typeOf (.star pos typing inner)) = true →
        context.isClass (context.typeOf inner) = true) ∧ context.Reaches inner
  | _ => True

/-- A selection is from what its base leads to. -/
def Direct (context : Context) : Expr → Prop
  | .selector _ _ base _ _ _ _ => context.Reaches base
  | _ => True

/-- A function refers to its variables where they are visible, and its expressions have
the types that they should have. -/
structure WellTypedFunction (context : Context) (function : Function) (stmts : List Stmt) :
    Prop where
  scopes : function.Scoped context.package stmts
  entities : ∀ id ∈ function.receiver.toList ++ function.known stmts, context.IsVariable id
  typed : StmtsInScope (fun _ => context.Typed) (function.params ++ function.results) stmts

/-- No selection in a function misses a dereference. -/
def DirectFunction (context : Context) (function : Function) (stmts : List Stmt) : Prop :=
  StmtsInScope (fun _ => context.Direct) (function.params ++ function.results) stmts

end Context

/-- Something holds of every function that is a unit, with its statements. -/
def EveryUnit (package : Package) (holds : Function → List Stmt → Prop) : Prop :=
  ∀ decl ∈ decls package, ∀ body ∈ decl.body, ∀ id ∈ decl.entity, ∀ entity function,
    function? package id = some (entity, function) →
    ((Context.of package).unitOf? id).isSome = true → holds function body.2

/-- A package is well typed: its declarations have different names, so have the fields of a
struct unless they are blank, and all units are well typed. -/
structure WellTyped (package : Package) : Prop where
  distinct : ((package.scope.filterMap package.entity?).map (·.name)).Nodup
  fields : ∀ info ∈ classInfos package,
    ((info.fields.filter (·.name ≠ "_")).map (·.name)).Nodup ∧
      ∀ field ∈ info.fields, IsIdentifier field.name
  units : EveryUnit package (Context.of package).WellTypedFunction

/-- No selection in a unit misses a dereference. -/
def Direct (package : Package) : Prop := EveryUnit package (Context.of package).DirectFunction

end Custody.Lowering
