import Custody.Proofs.Source.Scoping
import Mathlib.Logic.Relation

/-!
# Expressions inside others

`Expr.operands` lists the expressions that an expression is computed from, and an
expression encloses all that its operands lead to.  `Stmt.fragments` lists what statements
are made of: the expressions that are computed or assigned to, and the places of statements
that are not looked into.

A type checker matches the values of an assignment with its targets.  `Stmt.Balanced` says
what follows from that for the numbers of both.
-/

namespace Custody.Source

namespace Expr

/-- What something that is called stands for. -/
def calledMode? (function : Expr) : Option Mode := function.unparen.typing?.map (·.mode)

/-- The value of an element of a composite. -/
def element : Expr → Expr
  | .keyValue _ _ _ value => value
  | value => value

/-- The key of an element of a composite, if there is one. -/
def elementKey : Expr → List Expr
  | .keyValue _ _ key _ => [key]
  | _ => []

/-- The expressions that an expression is computed from.  The type of a conversion is none
of them, nor is the package that a name is qualified with. -/
def operands : Expr → List Expr
  | .missing | .ident _ _ | .basicLit _ _ _ | .plain _ _ _ => []
  | .paren _ _ inner | .star _ _ inner | .typeAssert _ _ inner | .unary _ _ _ inner => [inner]
  | .binary _ _ _ left right | .keyValue _ _ left right => [left, right]
  | .selector _ _ base _ _ _ selection => if selection.isSome then [base] else []
  | .composite _ _ elements => elements.flatMap fun part => part.elementKey ++ [part.element]
  | .call _ _ function args =>
      if function.calledMode? = some .type then args else function :: args

/-- An expression is computed from another one, perhaps through others. -/
abbrev Encloses : Expr → Expr → Prop :=
  Relation.ReflTransGen fun outer inner => inner ∈ outer.operands

/-- A name, or what is selected from or pointed to by something: it may have a path. -/
def isPlace : Expr → Bool
  | .ident _ _ | .paren _ _ _ | .star _ _ _ | .selector _ _ _ _ _ _ _ => true
  | _ => false

/-- Is the value of an expression known before it is computed? -/
def isConstant (value : Expr) : Bool :=
  value.typing?.any fun typing => typing.mode = .nil || typing.constant.isSome

/-- Is an expression a call of `new` or `make`? -/
def allocates : Expr → Bool
  | .call _ _ function _ =>
      match function.unparen with
      | .ident typing name =>
          typing.map (·.mode) = some .builtin && (name.name = "new" || name.name = "make")
      | _ => false
  | _ => false

/-- The keys of the elements of a composite. -/
def keys : Expr → List Expr
  | .composite _ _ elements => elements.flatMap elementKey
  | _ => []

/-- The operands that leave no node behind: those of a constant, the arguments of `new` and
`make`, and the keys of a composite. -/
def leftOut (value : Expr) : List Expr :=
  if value.isConstant ∨ value.allocates then value.operands else value.keys

/-- An expression is inside an operand that leaves no node behind. -/
def Omits (value inner : Expr) : Prop :=
  ∃ outer, value.Encloses outer ∧ ∃ operand ∈ outer.leftOut, operand.Encloses inner

theorem varies_of_kept {value operand : Expr} (listed : operand ∈ value.operands)
    (kept : operand ∉ value.leftOut) :
    value.isConstant = false ∧ value.allocates = false ∧ operand ∉ value.keys := by
  unfold leftOut at kept
  split at kept
  next => exact absurd listed kept
  next varies =>
    obtain ⟨notConstant, notAllocates⟩ := not_or.1 varies
    exact ⟨Bool.eq_false_iff.2 notConstant, Bool.eq_false_iff.2 notAllocates, kept⟩

theorem unparen_unparen : (value : Expr) → value.unparen.unparen = value.unparen
  | .paren _ _ inner => inner.unparen_unparen
  | .missing | .ident _ _ | .basicLit _ _ _ | .plain _ _ _ | .star _ _ _ | .typeAssert _ _ _
  | .unary _ _ _ _ | .binary _ _ _ _ _ | .selector _ _ _ _ _ _ _ | .composite _ _ _
  | .keyValue _ _ _ _ | .call _ _ _ _ => rfl

variable {outer inner : Expr}

namespace Encloses

/-- An expression without operands has no other in it. -/
theorem eq_of_operands (inside : outer.Encloses inner) (none : outer.operands = []) :
    outer = inner := by
  rcases inside.cases_head with same | ⟨operand, listed, _⟩
  · exact same
  · rw [none] at listed
    cases listed

/-- Parentheses hide nothing but themselves. -/
theorem unparen (computed : inner.isPlace = false) :
    {value : Expr} → value.Encloses inner → value.unparen.Encloses inner
  | .paren _ _ _, inside => by
      rcases inside.cases_head with rfl | ⟨operand, listed, inside⟩
      · cases computed
      · rw [List.mem_singleton.1 listed] at inside
        have stripped := unparen computed inside
        exact stripped
  | .missing, inside | .ident _ _, inside | .basicLit _ _ _, inside | .plain _ _ _, inside
  | .star _ _ _, inside | .typeAssert _ _ _, inside | .unary _ _ _ _, inside
  | .binary _ _ _ _ _, inside | .selector _ _ _ _ _ _ _, inside | .composite _ _ _, inside
  | .keyValue _ _ _ _, inside | .call _ _ _ _, inside => inside

end Encloses

theorem Omits.cases_head (omits : outer.Omits inner) :
    (∃ operand ∈ outer.leftOut, operand.Encloses inner) ∨
      ∃ operand ∈ outer.operands, operand.Omits inner := by
  obtain ⟨around, inside, out⟩ := omits
  rcases inside.cases_head with rfl | ⟨operand, listed, inside⟩
  · exact .inl out
  · exact .inr ⟨operand, listed, around, inside, out⟩

/-- An expression without operands leaves none out. -/
theorem not_omits_of_operands (none : outer.operands = []) : ¬outer.Omits inner := by
  have keyless : outer.keys = [] := by
    cases outer with
    | composite _ _ elements =>
        cases elements with
        | nil => rfl
        | cons => simp [operands] at none
    | _ => rfl
  intro omits
  rcases omits.cases_head with ⟨operand, out, _⟩ | ⟨operand, listed, _⟩
  · rw [leftOut, none, keyless, ite_self] at out
    cases out
  · rw [none] at listed
    cases listed

theorem encloses_unparen : (value : Expr) → value.Encloses value.unparen
  | .paren _ _ inner => .head (.head []) inner.encloses_unparen
  | .missing | .ident _ _ | .basicLit _ _ _ | .plain _ _ _ | .star _ _ _ | .typeAssert _ _ _
  | .unary _ _ _ _ | .binary _ _ _ _ _ | .selector _ _ _ _ _ _ _ | .composite _ _ _
  | .keyValue _ _ _ _ | .call _ _ _ _ => .refl

end Expr

/-- What statements are made of. -/
inductive Fragment where
  | value (value : Expr)
  /-- Something that is not looked into, and what it is. -/
  | unread (pos : Int) (construct : String)
  deriving Inhabited, Repr

/-- The fragments before the statements of a clause. -/
def ClauseHead.fragments : ClauseHead → List Fragment
  | .cases exprs => exprs.map .value
  | .implicit _ => []
  | .communication pos => pos.toList.map (.unread · "select communication")

mutual

/-- The fragments of a statement. -/
def Stmt.fragments : Stmt → List Fragment
  | .empty => []
  | .send pos => [.unread pos "channel send"]
  | .bad pos => [.unread pos "statement"]
  | .block _ list => fragmentsAll list
  | .expr value => [.value value]
  | .vars specs => specs.flatMap fun spec => spec.values.map .value
  | .assign _ _ left right => left.map .value ++ right.map .value
  | .incDec _ _ target => [.value target]
  | .ret _ values => values.map .value
  | .cond _ init test _ body otherwise =>
      init.fragments ++ .value test :: fragmentsAll body ++ otherwise.fragments
  | .loop _ init test post _ body =>
      init.fragments ++ test.toList.map .value ++ fragmentsAll body ++ post.fragments
  | .range _ _ key value collection _ body =>
      [.value collection] ++ key.toList.map .value ++ value.toList.map .value ++ fragmentsAll body
  | .switch _ init tag clauses =>
      init.fragments ++ tag.toList.map .value ++ fragmentsOfClauses clauses
  | .typeSwitch _ init _ subject clauses =>
      init.fragments ++ [.value subject] ++ fragmentsOfClauses clauses
  | .select _ clauses => fragmentsOfClauses clauses
  | .labeled inner => inner.fragments
  termination_by structural stmt => stmt

/-- The fragments of statements. -/
def fragmentsAll : List Stmt → List Fragment
  | [] => []
  | first :: rest => first.fragments ++ fragmentsAll rest
  termination_by structural stmts => stmts

/-- The fragments of a clause. -/
def Clause.fragments : Clause → List Fragment
  | .mk _ head body => head.fragments ++ fragmentsAll body
  termination_by structural clause => clause

/-- The fragments of clauses. -/
def fragmentsOfClauses : List Clause → List Fragment
  | [] => []
  | first :: rest => first.fragments ++ fragmentsOfClauses rest
  termination_by structural clauses => clauses

end

/-- Every target has a value, or a single value is for all targets. -/
def Matched (targets values : Nat) : Prop := values = targets ∨ values = 1 ∧ 0 < targets

/-- The variable that a clause of a switch declares if the switch binds its subject. -/
def Clause.binding? : Clause → Option EntityId
  | .mk _ (.implicit entity) _ => entity
  | .mk _ _ _ => none

mutual

/-- The values of assignments match their targets, and a switch that binds its subject has a
clause to bind it in. -/
def Stmt.Balanced : Stmt → Prop
  | .empty | .send _ | .bad _ | .expr _ | .incDec _ _ _ | .ret _ _ => True
  | .block _ list => StmtsBalanced list
  | .vars specs => ∀ spec ∈ specs, spec.values ≠ [] → Matched spec.names.length spec.values.length
  | .assign op _ left right =>
      if op = "=" ∨ op = ":=" then Matched left.length right.length
      else left.length = 1 ∧ right.length = 1
  | .cond _ init _ _ body otherwise => init.Balanced ∧ StmtsBalanced body ∧ otherwise.Balanced
  | .loop _ init _ post _ body => init.Balanced ∧ StmtsBalanced body ∧ post.Balanced
  | .range _ _ _ _ _ _ body => StmtsBalanced body
  | .switch _ init _ clauses => init.Balanced ∧ ClausesBalanced clauses
  | .typeSwitch _ init binds _ clauses =>
      init.Balanced ∧ (binds = true → ∃ clause ∈ clauses, clause.binding?.isSome = true) ∧
        ClausesBalanced clauses
  | .select _ clauses => ClausesBalanced clauses
  | .labeled inner => inner.Balanced
  termination_by structural stmt => stmt

def StmtsBalanced : List Stmt → Prop
  | [] => True
  | first :: rest => first.Balanced ∧ StmtsBalanced rest
  termination_by structural stmts => stmts

def Clause.Balanced : Clause → Prop
  | .mk _ _ body => StmtsBalanced body
  termination_by structural clause => clause

def ClausesBalanced : List Clause → Prop
  | [] => True
  | first :: rest => first.Balanced ∧ ClausesBalanced rest
  termination_by structural clauses => clauses

end

end Custody.Source
