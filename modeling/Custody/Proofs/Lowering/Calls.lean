import Custody.Proofs.Lowering.Classes
import Custody.Proofs.Lowering.Declarations
import Custody.Proofs.Lowering.Keeping

/-!
# Calls of units

A call of a unit becomes a call or a construction of the member of that name.  Where it
cannot, an unsupported construct stands at its position, or at that of an expression around
it.  What is not looked into is kept as an unsupported construct, too, so that no call
inside goes unnoticed.

The arguments of `new` and `make` and the keys of composites are an exception.  The arguments
are lowered and then left out of the node of the call, and of a key nothing is looked at but the
name that it may be, so that the calls in both vanish.  Constants are not computed, and the calls
in them are not made.
-/

namespace Custody.Source

/-- The function that a call names or selects.  Conversions and calls of predeclared
functions call none. -/
def Expr.calledFunction? : Expr → Option EntityId
  | .call _ _ function _ =>
      if function.calledMode? = some .type ∨ function.calledMode? = some .builtin then none
      else match function.unparen with
        | .ident _ name => name.used
        | .selector _ _ _ _ _ _ (some selection) =>
            if selection.kind = .field then none else selection.entity
        | .selector _ _ _ _ _ used none => used
        | _ => none
  | _ => none

/-- An expression that is not looked into. -/
def Expr.isUnread : Expr → Bool
  | .plain pos typing kind => !(Expr.plain pos typing kind).isConstant
  | _ => false

end Custody.Source

namespace Custody.Lowering

open Source

/-- A call of a unit, with the class and the name of the unit. -/
structure Context.CallsUnit (context : Context) (call : Expr) (owner : ClassInfo)
    (isConstructor : Bool) (name : String) : Prop where
  unit : ∃ id, call.calledFunction? = some id ∧
    context.unitOf? id = some (owner, isConstructor) ∧
    (context.package.entity? id).map (·.name) = some name
  varies : call.isConstant = false

/-- A node calls or constructs at a position what a unit is named. -/
def IsCallOf (pos : Int) (owner : ClassInfo) (isConstructor : Bool) (name : String)
    (node : Code.Node) : Prop :=
  match isConstructor with
  | true => ∃ args, node = .new pos owner.name name args
  | false => ∃ qualifier args, node = .call pos qualifier name args

/-- The node of a call of a unit is among nodes. -/
def Unit.KeepsCall (unit : Unit) (call : Expr) (owner : ClassInfo) (isConstructor : Bool)
    (name : String) (nodes : List Code.Node) : Prop :=
  ∃ names, (unit.withNames names).expr call ∈ nodes ∧
    IsCallOf call.pos owner isConstructor name ((unit.withNames names).expr call)

section Calls

variable {scope : Scope} {call : Expr} {owner : ClassInfo} {isConstructor : Bool} {name : String}
variable {pos : Int} {args : List Code.Node}

/-- The function of a unit is known by its name. -/
theorem function?_of_unitOf? {context : Context} {id : EntityId}
    (isUnit : context.unitOf? id = some (owner, isConstructor))
    (named : (context.package.entity? id).map (·.name) = some name) :
    ∃ entity function, function? context.package id = some (entity, function) ∧
      entity.name = name := by
  obtain ⟨_, _, entity, function, found, _⟩ := Context.unitOf?_eq_some isUnit
  refine ⟨entity, function, found, ?_⟩
  unfold function? at found
  split at found
  next declared known =>
    rw [known] at named
    split at found
    · cases found
      exact Option.some.inj named
    · cases found
  · cases found

/-- The call by its name of a unit that is no constructor is unsupported. -/
theorem Scope.functionCall_of_unit {id : EntityId}
    (isUnit : scope.context.unitOf? id = some (owner, isConstructor))
    (named : (scope.context.package.entity? id).map (·.name) = some name) :
    IsCallOf pos owner isConstructor name
        (scope.functionCall pos (Scope.call.usedFunction? scope (some id)) args) ∨
      ∃ construct, scope.functionCall pos (Scope.call.usedFunction? scope (some id)) args =
        .unsupported pos construct := by
  obtain ⟨entity, function, found, rfl⟩ := function?_of_unitOf? isUnit named
  have used : Scope.call.usedFunction? scope (some id) = some id := by
    simp [Scope.call.usedFunction?, found]
  rw [used, Scope.functionCall]
  simp only [found, isUnit]
  cases isConstructor with
  | true => exact .inl ⟨_, rfl⟩
  | false => exact .inr ⟨_, rfl⟩

/-- The selection of a constructor, or from something without a path, is unsupported. -/
theorem Scope.methodCall_of_unit {selection : Selection} {base : Option String} {id : EntityId}
    (chosen : selection.entity = some id)
    (isUnit : scope.context.unitOf? id = some (owner, isConstructor))
    (named : (scope.context.package.entity? id).map (·.name) = some name) :
    IsCallOf pos owner isConstructor name (scope.methodCall pos selection base args) ∨
      ∃ construct, scope.methodCall pos selection base args = .unsupported pos construct := by
  obtain ⟨entity, function, found, rfl⟩ := function?_of_unitOf? isUnit named
  unfold Scope.methodCall
  simp only [chosen, Option.bind_some, found, Option.map_some, isUnit]
  cases isConstructor with
  | true => exact .inr ⟨_, rfl⟩
  | false =>
      cases base with
      | none => exact .inr ⟨_, rfl⟩
      | some base =>
          dsimp only
          split
          · exact .inr ⟨_, rfl⟩
          · exact .inl ⟨_, _, rfl⟩

theorem Scope.callee_unparen (scope : Scope) (function : Expr) :
    scope.callee function.unparen = scope.callee function := by
  fun_induction Scope.callee scope function with
  | case1 _ _ _ ih => exact ih
  | case2 | case3 => rfl
  | case4 function notParen notIdent notSelector =>
      cases function with
      | paren pos typing inner => exact (notParen pos typing inner rfl).elim
      | ident typing name => exact (notIdent typing name rfl).elim
      | selector pos typing base name namePos used selection =>
          exact (notSelector pos typing base name namePos used selection rfl).elim
      | _ => rfl

/-- A call of a unit becomes its call or construction, or it is unsupported. -/
theorem Scope.expr_of_callsUnit (scope : Scope)
    (calls : scope.context.CallsUnit call owner isConstructor name) :
    IsCallOf call.pos owner isConstructor name (scope.expr call) ∨
      ∃ construct, scope.expr call = .unsupported call.pos construct := by
  obtain ⟨⟨id, called, isUnit, named⟩, varies⟩ := calls
  cases call with
  | call pos typing function args =>
      rw [Scope.expr.eq_def, Scope.constant?_eq_none varies]
      simp only [Expr.calledFunction?] at called
      split at called
      · cases called
      next isValue =>
        obtain ⟨notType, notBuiltin⟩ := not_or.1 isValue
        rw [Expr.calledMode?, ← scope.typing?_callee] at notType notBuiltin
        dsimp only
        unfold Scope.call
        split
        next isType => exact absurd isType notType
        next isBuiltin => exact absurd isBuiltin notBuiltin
        next =>
          rw [← scope.callee_unparen]
          split at called
          next shape =>
            rw [shape, Scope.callee]
            dsimp only
            rw [called]
            exact Scope.functionCall_of_unit isUnit named
          next selection shape =>
            rw [shape, Scope.callee]
            dsimp only
            split at called
            · cases called
            · split
              · exact Scope.methodCall_of_unit called isUnit named
              · exact .inr ⟨_, rfl⟩
          next shape =>
            rw [shape, Scope.callee]
            dsimp only
            rw [called]
            exact Scope.functionCall_of_unit isUnit named
          · cases called
  | _ => cases called

theorem IsCallOf.isPresent {node : Code.Node}
    (isCall : IsCallOf pos owner isConstructor name node) : node.isPresent = true := by
  cases isConstructor with
  | true =>
      obtain ⟨_, rfl⟩ := isCall
      rfl
  | false =>
      obtain ⟨_, _, rfl⟩ := isCall
      rfl

/-- What is not looked into is unsupported. -/
theorem Scope.expr_of_isUnread (scope : Scope) {value : Expr} (unread : value.isUnread = true) :
    ∃ construct, scope.expr value = .unsupported value.pos construct := by
  cases value with
  | plain pos typing kind =>
      rw [Scope.expr.eq_def, Scope.constant?_eq_none (by simpa [Expr.isUnread] using unread)]
      cases kind with
      | _ => exact ⟨_, rfl⟩
  | _ => cases unread

end Calls

namespace Unit

variable {unit : Unit} {value inner : Expr} {nodes : List Code.Node}

theorem hasNode_of_callsUnit (unit : Unit) {owner : ClassInfo} {isConstructor : Bool}
    {name : String} (calls : unit.context.CallsUnit inner owner isConstructor name) :
    unit.HasNode inner := by
  constructor
  case computed =>
    obtain ⟨id, called, _⟩ := calls.unit
    cases inner with
    | call => rfl
    | _ => cases called
  case present =>
    intro names
    rcases (unit.withNames names).expr_of_callsUnit calls with isCall | ⟨construct, same⟩
    · exact isCall.isPresent
    · rw [same]
      rfl

theorem hasNode_of_isUnread (unit : Unit) (unread : inner.isUnread = true) :
    unit.HasNode inner := by
  constructor
  case computed =>
    cases inner with
    | plain => rfl
    | _ => cases unread
  case present =>
    intro names
    obtain ⟨construct, same⟩ := (unit.withNames names).expr_of_isUnread unread
    rw [same]
    rfl

/-- An expression that is unsupported wherever it is lowered is replaced if it is kept. -/
theorem replaced_of_unsupported {names : Names} {construct : String}
    (inside : value.Encloses inner)
    (same : (unit.withNames names).expr inner = .unsupported inner.pos construct)
    (among : (unit.withNames names).expr inner ∈ nodes) : unit.Replaced value inner nodes := by
  refine ⟨inner, construct, inside, .refl, ⟨names, .inl same⟩, ?_⟩
  rw [← same]
  exact among

end Unit

/-! ## Methods -/

/-- The type checker knows the variables that statements declare, and has matched values with
targets. -/
structure Context.Checked (context : Context) (stmts : List Stmt) : Prop where
  known : ∀ id ∈ localsAll stmts, (context.package.entity? id).isSome = true
  balanced : StmtsBalanced stmts

/-- A function of a package with its statements, and the method that it is lowered to. -/
inductive Lowers (package : Package) : Function → List Stmt → Code.MethodDecl → Prop where
  | intro {decl : FuncDecl} {body : Int × List Stmt} {id : EntityId} {entity : Entity}
      {function : Function} {owner : ClassInfo} {isConstructor : Bool}
      (listed : decl ∈ decls package) (bodied : decl.body = some body)
      (named : decl.entity = some id) (found : function? package id = some (entity, function))
      (isUnit : (Context.of package).unitOf? id = some (owner, isConstructor)) :
      Lowers package function body.2
        (method (.of package) decl entity function isConstructor body)

section Methods

variable {package : Package} {function : Function} {stmts : List Stmt} {lowered : Code.MethodDecl}

/-- The method is one of the program of the package. -/
theorem Lowers.mem_program (lowers : Lowers package function stmts lowered) :
    ∃ declared ∈ (program package).classes, lowered ∈ declared.methods := by
  obtain ⟨listed, bodied, named, found, isUnit⟩ := lowers
  have member := (Context.unitOf?_eq_some isUnit).2.1
  refine ⟨_, classDecl_mem_program member, mem_methods_classDecl.2 (mem_units_iff.2 ?_)⟩
  exact ⟨_, listed, _, bodied, _, named, _, _, _, _, found, isUnit, rfl, rfl⟩

/-- The method keeps all fragments of the function. -/
theorem Lowers.keeps (lowers : Lowers package function stmts lowered)
    (checked : EveryUnit package fun _ => (Context.of package).Checked) {inner : Expr}
    (hasNode : (Unit.of (.of package) function).HasNode inner) {fragment : Fragment}
    (listed : fragment ∈ fragmentsAll stmts) :
    (Unit.of (.of package) function).KeepsFragment inner lowered.nodes fragment := by
  obtain @⟨decl, body, id, entity, _, owner, isConstructor, declared, bodied, named, found,
    isUnit⟩ := lowers
  obtain ⟨known, balanced⟩ := checked decl declared body bodied id named entity function found
    (by rw [isUnit]; rfl)
  have kept := Unit.keepsAll_stmts hasNode body.2 balanced known
    (.ofResults (.of package) function)
  have all : Unit.KeepsAll _ inner (fragmentsAll body.2)
      [.block body.1 (Unit.bodyStmts (.of package) function body.2)] :=
    (Unit.KeepsAll.append .nil kept).block body.1
  have here := all fragment listed
  rw [Code.Node.preorderAll, Code.Node.preorderAll, List.append_nil] at here
  exact here

/-- The nodes of a method keep the calls of units in its function, and all that is not looked
into, unless it is inside a constant, an argument of `new` or `make`, or a key of a composite.
A call is kept as a call or construction of the unit, or an unsupported construct stands for it
or for an expression around it. -/
theorem method_keeps_calls (checked : EveryUnit package fun _ => (Context.of package).Checked)
    (lowers : Lowers package function stmts lowered) :
    (∃ declared ∈ (program package).classes, lowered ∈ declared.methods) ∧
      (∀ value inner, .value value ∈ fragmentsAll stmts → value.Encloses inner →
        ¬value.Omits inner →
        (inner.isUnread = true →
          (Unit.of (.of package) function).Replaced value inner lowered.nodes) ∧
        ∀ owner isConstructor name,
          (Context.of package).CallsUnit inner owner isConstructor name →
          (Unit.of (.of package) function).KeepsCall inner owner isConstructor name
              lowered.nodes ∨
            (Unit.of (.of package) function).Replaced value inner lowered.nodes) ∧
      ∀ pos construct, .unread pos construct ∈ fragmentsAll stmts →
        .unsupported pos construct ∈ lowered.nodes := by
  refine ⟨lowers.mem_program, ?_, ?_⟩
  · intro value inner listed inside included
    constructor
    · intro unread
      have hasNode := (Unit.of (.of package) function).hasNode_of_isUnread unread
      cases lowers.keeps checked hasNode listed inside with
      | whole names among =>
          obtain ⟨construct, same⟩ := Scope.expr_of_isUnread _ unread
          exact Unit.replaced_of_unsupported inside same among
      | replaced replaced => exact replaced
      | omitted omits => exact absurd omits included
    · intro owner isConstructor name calls
      have hasNode := (Unit.of (.of package) function).hasNode_of_callsUnit calls
      cases lowers.keeps checked hasNode listed inside with
      | whole names among =>
          rcases ((Unit.of (.of package) function).withNames names).expr_of_callsUnit calls with
            isCall | ⟨construct, same⟩
          · exact .inl ⟨names, among, isCall⟩
          · exact .inr (Unit.replaced_of_unsupported inside same among)
      | replaced replaced => exact .inr replaced
      | omitted omits => exact absurd omits included
  · intro pos construct listed
    -- What is not looked into is kept for itself, whatever expression is looked for.
    have hasNode := (Unit.of (.of package) function).hasNode_of_isUnread
      (show (Expr.plain 0 none .other).isUnread = true from rfl)
    exact lowers.keeps checked hasNode listed

end Methods

/-! ## An argument of an allocation -/

namespace Allocation

/-- An expression of a type. -/
def known (type : Ty) : Option Typing := some ⟨.value, some type, none⟩

/-- The type `*T`. -/
def pointer : Ty := .pointer (.named 1)

/-- The call `t.N(u)`. -/
def call : Expr :=
  .call 122 (known (.other "int"))
    (.selector 122 (known (.other "func(u *T) int"))
      (.ident (known pointer) ⟨122, "t", none, some 7⟩) "N" 124 (some 2)
      (some ⟨.method, some pointer, some 2, [0]⟩))
    [.ident (known pointer) ⟨126, "u", none, some 8⟩]

/-- The expression `-t.N(u)`. -/
def negated : Expr := .unary 121 (known (.other "int")) "-" call

/-- The expression `make([]int, t.N(u))`. -/
def made : Expr :=
  .call 110 (known (.other "[]int"))
    (.ident (some ⟨.builtin, some (.other "func([]int, int) []int"), none⟩)
      ⟨110, "make", none, some 9⟩)
    [.plain 115 (some ⟨.type, some (.other "[]int"), none⟩) .other, call]

/-- The statements `t.n = u` and `return 0`. -/
def storing : List Stmt :=
  [.assign "=" 66
      [.selector 62 (known pointer) (.ident (known pointer) ⟨62, "t", none, some 3⟩) "n" 64 none
        (some ⟨.field, some pointer, none, [0]⟩)]
      [.ident (known pointer) ⟨68, "u", none, some 4⟩],
    .ret 71 [.basicLit 78 (some ⟨.value, some (.other "int"), some "0"⟩) "0"]]

/-- The statement that computes a value and drops it. -/
def stmts (value : Expr) : List Stmt :=
  [.assign "=" 108 [.ident none ⟨106, "_", none, none⟩] [value]]

def store : Function := ⟨"test", "(*test.T).N", false, some 3, [4], [5]⟩

def touch : Function := ⟨"test", "(*test.T).M", false, some 7, [8], []⟩

def decl (value : Expr) : FuncDecl := ⟨83, 131, "M", 95, some 6, none, some (103, stmts value)⟩

/-- A struct with two methods.  One keeps its argument, the other computes a value. -/
def package (value : Expr) : Package where
  path := "test"
  entities :=
    #[⟨"_", 0, .other⟩, ⟨"T", 17, .type false false (some [⟨"n", 27, some pointer, false⟩])⟩,
      ⟨"N", 47, .function store⟩, ⟨"t", 41, .var (some pointer)⟩, ⟨"u", 49, .var (some pointer)⟩,
      ⟨"", 55, .var (some (.other "int"))⟩, ⟨"M", 95, .function touch⟩,
      ⟨"t", 89, .var (some pointer)⟩, ⟨"u", 97, .var (some pointer)⟩, ⟨"make", 0, .other⟩]
  scope := [1]
  files :=
    [⟨1, 131, [], 1, "p", 9, [], none, false,
      [⟨35, 81, "N", 47, some 2, none, some (59, storing)⟩, decl value]⟩]

/-- The only class. -/
def owner : ClassInfo := ⟨1, "T", 17, [⟨"n", 27, some pointer, false⟩]⟩

theorem of_package (value : Expr) :
    Context.of (package value) = ⟨package value, [owner], [2, 6]⟩ := by
  have classes : classInfos (package value) = [owner] := by
    simp [classInfos, package, classInfo?, Package.entity?, owner]
  rw [Context.of, classes]
  rfl

variable {value : Expr}

theorem checked : EveryUnit (package value) fun _ => (Context.of (package value)).Checked := by
  intro decl listed body bodied id named entity function found isUnit
  have listed : decl ∈ [_, _] := listed
  rcases List.mem_pair.1 listed with rfl | rfl
  · cases bodied
    exact ⟨fun _ member => absurd member List.not_mem_nil, .inl rfl, trivial, trivial⟩
  · cases bodied
    exact ⟨fun _ member => absurd member List.not_mem_nil, .inl rfl, trivial⟩

/-- The method of the function that computes the value. -/
def lowered (value : Expr) : Code.MethodDecl :=
  method (.of (package value)) (decl value) ⟨"M", 95, .function touch⟩ touch false
    (103, stmts value)

theorem lowers : Lowers (package value) touch (stmts value) (lowered value) := by
  have isUnit : (Context.of (package value)).unitOf? 6 = some (owner, false) := by
    rw [of_package]
    rfl
  exact .intro (.tail _ (.head _)) rfl rfl rfl isUnit

theorem callsUnit : (Context.of (package value)).CallsUnit call owner false "N" := by
  refine ⟨⟨2, rfl, ?_, rfl⟩, rfl⟩
  rw [of_package]
  rfl

theorem not_omits_negated : ¬negated.Omits call := by
  intro omits
  rcases omits.cases_head with ⟨_, out, _⟩ | ⟨_, listed, omits⟩
  · cases out
  cases List.mem_singleton.1 listed
  rcases omits.cases_head with ⟨_, out, _⟩ | ⟨_, listed, omits⟩
  · cases out
  rcases List.mem_pair.1 listed with rfl | rfl
  · rcases omits.cases_head with ⟨_, out, _⟩ | ⟨_, listed, omits⟩
    · cases out
    cases List.mem_singleton.1 listed
    exact Expr.not_omits_of_operands rfl omits
  · exact Expr.not_omits_of_operands rfl omits

/-- Nothing in the negation of the result of a call is unsupported. -/
theorem not_replaced_negated :
    ¬(Unit.of (.of (package negated)) touch).Replaced negated call (lowered negated).nodes := by
  have supported : (lowered negated).nodes.all (fun node => node.kind ≠ .unsupported) = true := by
    rw [lowered, of_package]
    decide +kernel
  rintro ⟨outer, construct, _, _, _, among⟩
  have other := List.all_eq_true.1 supported _ among
  simp [Code.Node.kind] at other

/-- The negation of the result of a call keeps the call. -/
theorem method_keeps_calls_negated :
    EveryUnit (package negated) (fun _ => (Context.of (package negated)).Checked) ∧
      Lowers (package negated) touch (stmts negated) (lowered negated) ∧
      (Unit.of (.of (package negated)) touch).KeepsCall call owner false "N"
        (lowered negated).nodes := by
  have inside : negated.Encloses call := .single (.head _)
  have kept := (method_keeps_calls checked lowers).2.1 negated call (.tail _ (.head _)) inside
    not_omits_negated
  have whole := (kept.2 owner false "N" callsUnit).resolve_right not_replaced_negated
  exact ⟨checked, lowers, whole⟩

/-- The call in an argument of `make` leaves no node, and nothing is unsupported. -/
theorem not_keeps_calls_made :
    EveryUnit (package made) (fun _ => (Context.of (package made)).Checked) ∧
      Lowers (package made) touch (stmts made) (lowered made) ∧
      .value made ∈ fragmentsAll (stmts made) ∧ made.Encloses call ∧
      (Context.of (package made)).CallsUnit call owner false "N" ∧
      ∀ node ∈ (lowered made).nodes,
        ¬IsCallOf call.pos owner false "N" node ∧
          ∀ pos construct, node ≠ .unsupported pos construct := by
  refine ⟨checked, lowers, .tail _ (.head _), .single (.tail _ (.tail _ (.head _))), callsUnit, ?_⟩
  have nodes : (lowered made).nodes =
      [.block 103 [.new 110 "[]int" "" []], .new 110 "[]int" "" []] := by
    rw [lowered, of_package]
    rfl
  rw [nodes]
  intro node listed
  rcases List.mem_pair.1 listed with rfl | rfl
  · exact ⟨by rintro ⟨_, _, ⟨⟩⟩, by rintro _ _ ⟨⟩⟩
  · exact ⟨by rintro ⟨_, _, ⟨⟩⟩, by rintro _ _ ⟨⟩⟩

end Allocation

end Custody.Lowering
