import Custody.Source.Package

/-!
# Scopes of the source

A variable is visible from the end of its declaration to the end of the innermost
block around it.  Conditions, loops, switches and their clauses are blocks of their
own; what the first statement of one declares is visible in all of it.

`Stmt.InScope` says that something holds of every expression of a statement and the
variables that are visible there.
-/

namespace Custody.Source

/-- The variable that a name declares; a blank declares none. -/
def Ident.introduced? (name : Ident) : Option EntityId :=
  if name.name = "_" then none else name.defined

/-- The variable that is declared where an expression is a target, if targets declare any. -/
def Expr.introduced? (defines : Bool) : Expr → Option EntityId
  | .ident _ name => if defines then name.introduced? else none
  | _ => none

/-- The variables that a specification declares. -/
def ValueSpec.introduced (spec : ValueSpec) : List EntityId :=
  spec.names.filterMap (·.introduced?)

/-- The variables that are declared by targets, if these declare any. -/
def introduced (defines : Bool) (targets : List Expr) : List EntityId :=
  targets.filterMap (·.introduced? defines)

/-- The variables that a statement declares for the statements after it. -/
def Stmt.introduced : Stmt → List EntityId
  | .vars specs => specs.flatMap (·.introduced)
  | .assign op _ left _ => Source.introduced (op = ":=") left
  | .labeled inner => inner.introduced
  | _ => []

/-- The variable that a clause declares; only a switch that binds its subject has such
clauses. -/
def ClauseHead.introduced (binds : Bool) : ClauseHead → List EntityId
  | .implicit entity => if binds then entity.toList else []
  | _ => []

mutual

/-- All variables that are declared in a statement. -/
def Stmt.locals : Stmt → List EntityId
  | .empty | .send _ | .bad _ | .expr _ | .incDec _ _ _ | .ret _ _ => []
  | .block _ list => localsAll list
  | .vars specs => specs.flatMap (·.introduced)
  | .assign op _ left _ => Source.introduced (op = ":=") left
  | .cond _ init _ _ body otherwise => init.locals ++ localsAll body ++ otherwise.locals
  | .loop _ init _ post _ body => init.locals ++ localsAll body ++ post.locals
  | .range _ defines key value _ _ body =>
      Source.introduced defines (key.toList ++ value.toList) ++ localsAll body
  | .switch _ init _ clauses => init.locals ++ localsOfClauses false clauses
  | .typeSwitch _ init binds _ clauses => init.locals ++ localsOfClauses binds clauses
  | .select _ clauses => localsOfClauses false clauses
  | .labeled inner => inner.locals
  termination_by structural stmt => stmt

/-- All variables that are declared in statements. -/
def localsAll : List Stmt → List EntityId
  | [] => []
  | first :: rest => first.locals ++ localsAll rest
  termination_by structural stmts => stmts

/-- All variables that are declared in a clause. -/
def Clause.locals (binds : Bool) : Clause → List EntityId
  | .mk _ head body => head.introduced binds ++ localsAll body
  termination_by structural clause => clause

/-- All variables that are declared in clauses. -/
def localsOfClauses (binds : Bool) : List Clause → List EntityId
  | [] => []
  | first :: rest => first.locals binds ++ localsOfClauses binds rest
  termination_by structural clauses => clauses

end

/-- What a statement declares for those after it is among all that it declares. -/
theorem Stmt.introduced_subset_locals : (stmt : Stmt) → stmt.introduced ⊆ stmt.locals
  | .vars _ | .assign _ _ _ _ => fun _ member => by
      rw [Stmt.locals]
      exact member
  | .labeled inner => fun _ member => by
      rw [Stmt.locals]
      exact inner.introduced_subset_locals member
  | .empty | .send _ | .bad _ | .block _ _ | .expr _ | .incDec _ _ _ | .ret _ _
  | .cond _ _ _ _ _ _ | .loop _ _ _ _ _ _ | .range _ _ _ _ _ _ _ | .switch _ _ _ _
  | .typeSwitch _ _ _ _ _ | .select _ _ => nofun
  termination_by structural stmt => stmt

mutual

/-- Something holds of an expression and of all expressions in it. -/
def Expr.Everywhere (fits : Expr → Prop) : Expr → Prop
  | .missing => fits .missing
  | .ident typing name => fits (.ident typing name)
  | .basicLit pos typing value => fits (.basicLit pos typing value)
  | .plain pos typing kind => fits (.plain pos typing kind)
  | .paren pos typing inner => fits (.paren pos typing inner) ∧ inner.Everywhere fits
  | .star pos typing inner => fits (.star pos typing inner) ∧ inner.Everywhere fits
  | .typeAssert pos typing inner => fits (.typeAssert pos typing inner) ∧ inner.Everywhere fits
  | .unary pos typing op inner => fits (.unary pos typing op inner) ∧ inner.Everywhere fits
  | .binary pos typing op left right =>
      fits (.binary pos typing op left right) ∧ left.Everywhere fits ∧ right.Everywhere fits
  | .selector pos typing base name namePos used selection =>
      fits (.selector pos typing base name namePos used selection) ∧ base.Everywhere fits
  | .composite pos typing elements =>
      fits (.composite pos typing elements) ∧ EverywhereAll fits elements
  | .keyValue pos typing key value => fits (.keyValue pos typing key value) ∧ value.Everywhere fits
  | .call pos typing function args =>
      fits (.call pos typing function args) ∧ function.Everywhere fits ∧ EverywhereAll fits args
  termination_by structural expr => expr

/-- Something holds of all expressions in several. -/
def EverywhereAll (fits : Expr → Prop) : List Expr → Prop
  | [] => True
  | first :: rest => first.Everywhere fits ∧ EverywhereAll fits rest
  termination_by structural exprs => exprs

end

mutual

/-- What holds of all expressions holds everywhere in one. -/
theorem Expr.everywhere_of_forall {fits : Expr → Prop} (all : ∀ value, fits value) :
    (value : Expr) → value.Everywhere fits
  | .missing => all _
  | .ident _ _ => all _
  | .basicLit _ _ _ => all _
  | .plain _ _ _ => all _
  | .paren _ _ inner => ⟨all _, Expr.everywhere_of_forall all inner⟩
  | .star _ _ inner => ⟨all _, Expr.everywhere_of_forall all inner⟩
  | .typeAssert _ _ inner => ⟨all _, Expr.everywhere_of_forall all inner⟩
  | .unary _ _ _ inner => ⟨all _, Expr.everywhere_of_forall all inner⟩
  | .binary _ _ _ left right =>
      ⟨all _, Expr.everywhere_of_forall all left, Expr.everywhere_of_forall all right⟩
  | .selector _ _ base _ _ _ _ => ⟨all _, Expr.everywhere_of_forall all base⟩
  | .composite _ _ elements => ⟨all _, everywhereAll_of_forall all elements⟩
  | .keyValue _ _ _ value => ⟨all _, Expr.everywhere_of_forall all value⟩
  | .call _ _ function args =>
      ⟨all _, Expr.everywhere_of_forall all function, everywhereAll_of_forall all args⟩
  termination_by structural value => value

theorem everywhereAll_of_forall {fits : Expr → Prop} (all : ∀ value, fits value) :
    (values : List Expr) → EverywhereAll fits values
  | [] => trivial
  | value :: rest => ⟨value.everywhere_of_forall all, everywhereAll_of_forall all rest⟩
  termination_by structural values => values

end

theorem Expr.Everywhere.here {fits : Expr → Prop} {value : Expr} (everywhere : value.Everywhere fits) :
    fits value := by
  cases value with
  | missing | ident | basicLit | plain => exact everywhere
  | _ => exact everywhere.1

theorem Expr.Everywhere.unparen {fits : Expr → Prop} :
    {value : Expr} → value.Everywhere fits → value.unparen.Everywhere fits
  | .paren _ _ _, everywhere => everywhere.2.unparen
  | .missing, everywhere | .ident _ _, everywhere | .basicLit _ _ _, everywhere
  | .plain _ _ _, everywhere | .star _ _ _, everywhere | .typeAssert _ _ _, everywhere
  | .unary _ _ _ _, everywhere | .binary _ _ _ _ _, everywhere
  | .selector _ _ _ _ _ _ _, everywhere | .composite _ _ _, everywhere
  | .keyValue _ _ _ _, everywhere | .call _ _ _ _, everywhere => everywhere

section Scopes

variable (fits : List EntityId → Expr → Prop)

/-- Something holds of an expression where some variables are visible. -/
def Expr.Sees (visible : List EntityId) (value : Expr) : Prop := value.Everywhere (fits visible)

/-- A target declares a variable, or it is looked at like any expression. -/
def Expr.Targets (defines : Bool) (visible : List EntityId) (target : Expr) : Prop :=
  (target.introduced? defines).isSome = true ∨ target.Sees fits visible

/-- What a specification declares is visible after it. -/
def SpecsInScope (visible : List EntityId) : List ValueSpec → Prop
  | [] => True
  | spec :: rest =>
      (∀ value ∈ spec.values, value.Sees fits visible) ∧
        SpecsInScope (visible ++ spec.introduced) rest

/-- What stands before the statements of a clause. -/
def ClauseHead.InScope (visible : List EntityId) : ClauseHead → Prop
  | .cases exprs => ∀ value ∈ exprs, value.Sees fits visible
  | .implicit _ | .communication _ => True

mutual

/-- Something holds of every expression of a statement and the variables visible there. -/
def Stmt.InScope (visible : List EntityId) : Stmt → Prop
  | .empty | .send _ | .bad _ => True
  | .block _ list => StmtsInScope visible list
  | .expr value => value.Sees fits visible
  | .vars specs => SpecsInScope fits visible specs
  | .assign op _ left right =>
      (∀ value ∈ right, value.Sees fits visible) ∧
        ∀ target ∈ left, target.Targets fits (op = ":=") visible
  | .incDec _ _ target => target.Sees fits visible
  | .ret _ values => ∀ value ∈ values, value.Sees fits visible
  | .cond _ init test _ body otherwise =>
      init.InScope visible ∧ test.Sees fits (visible ++ init.introduced) ∧
        StmtsInScope (visible ++ init.introduced) body ∧
        otherwise.InScope (visible ++ init.introduced)
  | .loop _ init test post _ body =>
      init.InScope visible ∧ (∀ value ∈ test, value.Sees fits (visible ++ init.introduced)) ∧
        StmtsInScope (visible ++ init.introduced) body ∧ post.InScope (visible ++ init.introduced)
  | .range _ defines key value collection _ body =>
      collection.Sees fits visible ∧
        (∀ target ∈ key.toList ++ value.toList, target.Targets fits defines visible) ∧
        StmtsInScope (visible ++ introduced defines (key.toList ++ value.toList)) body
  | .switch _ init tag clauses =>
      init.InScope visible ∧ (∀ value ∈ tag, value.Sees fits (visible ++ init.introduced)) ∧
        ClausesInScope false (visible ++ init.introduced) clauses
  | .typeSwitch _ init binds subject clauses =>
      init.InScope visible ∧ subject.Sees fits (visible ++ init.introduced) ∧
        ClausesInScope binds (visible ++ init.introduced) clauses
  | .select _ clauses => ClausesInScope false visible clauses
  | .labeled inner => inner.InScope visible
  termination_by structural stmt => stmt

/-- What a statement declares is visible in those after it. -/
def StmtsInScope (visible : List EntityId) : List Stmt → Prop
  | [] => True
  | first :: rest => first.InScope visible ∧ StmtsInScope (visible ++ first.introduced) rest
  termination_by structural stmts => stmts

/-- What the head of a clause declares is visible in its statements. -/
def Clause.InScope (binds : Bool) (visible : List EntityId) : Clause → Prop
  | .mk _ head body =>
      head.InScope fits visible ∧ StmtsInScope (visible ++ head.introduced binds) body
  termination_by structural clause => clause

/-- What a clause declares is not visible in the others. -/
def ClausesInScope (binds : Bool) (visible : List EntityId) : List Clause → Prop
  | [] => True
  | first :: rest => first.InScope binds visible ∧ ClausesInScope binds visible rest
  termination_by structural clauses => clauses

end

end Scopes

/-! ## Both of two things -/

section Both

variable {first second : Expr → Prop}

mutual

theorem Expr.Everywhere.and : {value : Expr} → value.Everywhere first → value.Everywhere second →
    value.Everywhere fun inner => first inner ∧ second inner
  | .missing, one, two | .ident _ _, one, two | .basicLit _ _ _, one, two
  | .plain _ _ _, one, two => ⟨one, two⟩
  | .paren _ _ _, one, two | .star _ _ _, one, two | .typeAssert _ _ _, one, two
  | .unary _ _ _ _, one, two | .selector _ _ _ _ _ _ _, one, two
  | .keyValue _ _ _ _, one, two => ⟨⟨one.1, two.1⟩, one.2.and two.2⟩
  | .binary _ _ _ _ _, one, two =>
      ⟨⟨one.1, two.1⟩, one.2.1.and two.2.1, one.2.2.and two.2.2⟩
  | .composite _ _ _, one, two => ⟨⟨one.1, two.1⟩, EverywhereAll.and one.2 two.2⟩
  | .call _ _ _ _, one, two =>
      ⟨⟨one.1, two.1⟩, one.2.1.and two.2.1, EverywhereAll.and one.2.2 two.2.2⟩
  termination_by structural value => value

theorem EverywhereAll.and : {values : List Expr} → EverywhereAll first values →
    EverywhereAll second values → EverywhereAll (fun inner => first inner ∧ second inner) values
  | [], _, _ => trivial
  | _ :: _, one, two => ⟨one.1.and two.1, EverywhereAll.and one.2 two.2⟩
  termination_by structural values => values

end

end Both

section Both

variable {first second : List EntityId → Expr → Prop} {visible : List EntityId}

theorem Expr.Sees.and {value : Expr} (one : value.Sees first visible)
    (two : value.Sees second visible) :
    value.Sees (fun visible inner => first visible inner ∧ second visible inner) visible :=
  Expr.Everywhere.and one two

theorem Expr.Targets.and {defines : Bool} {target : Expr}
    (one : target.Targets first defines visible) (two : target.Targets second defines visible) :
    target.Targets (fun visible inner => first visible inner ∧ second visible inner) defines
      visible := by
  rcases one with introduces | one
  · exact .inl introduces
  · exact two.imp_right fun two => Expr.Sees.and one two

theorem SpecsInScope.and {specs : List ValueSpec} (one : SpecsInScope first visible specs)
    (two : SpecsInScope second visible specs) :
    SpecsInScope (fun visible inner => first visible inner ∧ second visible inner) visible
      specs := by
  induction specs generalizing visible with
  | nil => trivial
  | cons spec rest ih =>
      exact ⟨fun value member => Expr.Sees.and (one.1 value member) (two.1 value member),
        ih one.2 two.2⟩

theorem ClauseHead.InScope.and {head : ClauseHead} (one : head.InScope first visible)
    (two : head.InScope second visible) :
    head.InScope (fun visible inner => first visible inner ∧ second visible inner) visible := by
  cases head with
  | cases exprs => exact fun value member => Expr.Sees.and (one value member) (two value member)
  | implicit _ => trivial
  | communication _ => trivial

mutual

theorem Stmt.InScope.and : {stmt : Stmt} → {visible : List EntityId} →
    stmt.InScope first visible → stmt.InScope second visible →
    stmt.InScope (fun visible inner => first visible inner ∧ second visible inner) visible
  | .empty, _, _, _ | .send _, _, _, _ | .bad _, _, _, _ => trivial
  | .block _ _, _, one, two => StmtsInScope.and one two
  | .expr _, _, one, two => Expr.Sees.and one two
  | .vars _, _, one, two => SpecsInScope.and one two
  | .assign _ _ _ _, _, one, two =>
      ⟨fun value member => Expr.Sees.and (one.1 value member) (two.1 value member),
        fun target member => Expr.Targets.and (one.2 target member) (two.2 target member)⟩
  | .incDec _ _ _, _, one, two => Expr.Sees.and one two
  | .ret _ _, _, one, two =>
      fun value member => Expr.Sees.and (one value member) (two value member)
  | .cond _ _ _ _ _ _, _, one, two =>
      ⟨one.1.and two.1, Expr.Sees.and one.2.1 two.2.1, StmtsInScope.and one.2.2.1 two.2.2.1,
        one.2.2.2.and two.2.2.2⟩
  | .loop _ _ _ _ _ _, _, one, two =>
      ⟨one.1.and two.1,
        fun value member => Expr.Sees.and (one.2.1 value member) (two.2.1 value member),
        StmtsInScope.and one.2.2.1 two.2.2.1, one.2.2.2.and two.2.2.2⟩
  | .range _ _ _ _ _ _ _, _, one, two =>
      ⟨Expr.Sees.and one.1 two.1,
        fun target member => Expr.Targets.and (one.2.1 target member) (two.2.1 target member),
        StmtsInScope.and one.2.2 two.2.2⟩
  | .switch _ _ _ _, _, one, two =>
      ⟨one.1.and two.1,
        fun value member => Expr.Sees.and (one.2.1 value member) (two.2.1 value member),
        ClausesInScope.and one.2.2 two.2.2⟩
  | .typeSwitch _ _ _ _ _, _, one, two =>
      ⟨one.1.and two.1, Expr.Sees.and one.2.1 two.2.1, ClausesInScope.and one.2.2 two.2.2⟩
  | .select _ _, _, one, two => ClausesInScope.and one two
  | .labeled inner, _, one, two => (show inner.InScope first _ from one).and two
  termination_by structural stmt => stmt

theorem StmtsInScope.and : {stmts : List Stmt} → {visible : List EntityId} →
    StmtsInScope first visible stmts → StmtsInScope second visible stmts →
    StmtsInScope (fun visible inner => first visible inner ∧ second visible inner) visible stmts
  | [], _, _, _ => trivial
  | _ :: _, _, one, two => ⟨one.1.and two.1, StmtsInScope.and one.2 two.2⟩
  termination_by structural stmts => stmts

theorem Clause.InScope.and {binds : Bool} : {clause : Clause} → {visible : List EntityId} →
    clause.InScope first binds visible → clause.InScope second binds visible →
    clause.InScope (fun visible inner => first visible inner ∧ second visible inner) binds visible
  | .mk _ _ _, _, one, two => ⟨ClauseHead.InScope.and one.1 two.1, StmtsInScope.and one.2 two.2⟩
  termination_by structural clause => clause

theorem ClausesInScope.and {binds : Bool} : {clauses : List Clause} → {visible : List EntityId} →
    ClausesInScope first binds visible clauses → ClausesInScope second binds visible clauses →
    ClausesInScope (fun visible inner => first visible inner ∧ second visible inner) binds visible
      clauses
  | [], _, _, _ => trivial
  | _ :: _, _, one, two => ⟨one.1.and two.1, ClausesInScope.and one.2 two.2⟩
  termination_by structural clauses => clauses

end

end Both

end Custody.Source
