import Custody.Proofs.Eval.Visits
import Custody.Proofs.Lowering.Routes
import Custody.Proofs.Lowering.Traversal

/-!
# Lowered units are well scoped

If a function refers to a variable only in the block of its declaration and after it,
then whatever the evaluation of the lowered unit looks up is bound at that moment: no
look-up falls back to a field of the receiver.
-/

namespace Custody.Source

open Code (Path)

/-- A name refers to one of some variables only where it is visible. -/
def Expr.Refers (known visible : List EntityId) : Expr → Prop
  | .ident _ name => ∀ id ∈ name.entity?, id ∈ known → id ∈ visible
  | _ => True

/-- The parameters, results and local variables of a function. -/
def Function.known (function : Function) (stmts : List Stmt) : List EntityId :=
  function.params ++ (function.results ++ localsAll stmts)

/-- Every variable of a function is declared once, under a name without dots, and is
referred to only in the block of its declaration and after it. -/
structure Function.Scoped (package : Package) (function : Function) (stmts : List Stmt) :
    Prop where
  distinct : (function.known stmts).Nodup
  named : ∀ id ∈ function.known stmts, ∃ entity, package.entity? id = some entity ∧
    Path.IsName entity.name
  inScope : StmtsInScope (Expr.Refers (function.known stmts))
    (function.params ++ function.results) stmts

end Custody.Source

namespace Custody.Lowering

open Source
open Code (Environment Demands Path)

/-- What is looked up first is declared. -/
def declaredFirst : Demands where
  reads env target := target.first ∈ env.map (·.1)
  calls env qualifier _ := Code.qualifierFirst qualifier ∈ env.map (·.1)
  makes _ _ _ := True

/-- A unit of which is asked that what is looked up first is declared. -/
def Setting.declaring (context : Context) (function : Function) (owner : String)
    (stmts : List Stmt) : Setting where
  unit := .of context function
  owner := owner
  known := function.known stmts
  fits := Expr.Refers (function.known stmts)
  demands := declaredFirst

section Satisfied

variable {context : Context} {function : Function} {owner : String} {stmts : List Stmt}
variable {visible : List EntityId} {env : Environment} {names : Names}

theorem isName_this : Path.IsName Code.this := by decide

/-- The name of a variable has no dots and is not empty. -/
theorem Setting.Tracks.isName_of_nameOf? {setting : Setting}
    (tracks : setting.Tracks visible env names)
    (worded : ∀ id ∈ setting.known, ∃ entity,
      setting.unit.context.package.entity? id = some entity ∧ Path.IsName entity.name)
    {entity : Option EntityId} {name : String}
    (named : (setting.scope names).nameOf? entity = some name) :
    Path.IsName name ∧ name ≠ "" := by
  rcases tracks.worded_of_nameOf? named with rfl | ⟨id, listed, number, rfl⟩
  · exact ⟨isName_this, by decide⟩
  · obtain ⟨entity, found, whole⟩ := worded id listed
    rw [found, Option.getD_some]
    have wished : Path.IsName (Names.wish entity) ∧ Names.wish entity ≠ "" := by
      unfold Names.wish
      split
      next => exact ⟨by simp [Path.IsName], by decide⟩
      next some => exact ⟨whole, by simp_all⟩
    refine ⟨Names.isName_numbered wished.1 number, ?_⟩
    unfold Names.numbered
    split
    · exact wished.2
    · simp

/-- The path of an expression starts at something declared. -/
theorem first_of_leads (lawful : function.Scoped context.package stmts)
    (tracks : (Setting.declaring context function owner stmts).Tracks visible env names)
    {value : Expr} {path : String}
    (leads : ((Setting.declaring context function owner stmts).scope names).Leads value path)
    (sees : value.Sees (Expr.Refers (function.known stmts)) visible) :
    (Path.parse path).first ∈ env.map (·.1) ∧ (Path.parse path).first ≠ "" := by
  induction leads with
  | start named =>
      obtain ⟨whole, some⟩ := tracks.isName_of_nameOf? lawful.named named
      obtain ⟨_, _, _, member⟩ := tracks.mem_of_nameOf? named sees
      rw [Path.first_of_isName whole]
      exact ⟨List.mem_map.2 ⟨_, member, rfl⟩, some⟩
  | paren _ ih => exact ih sees.2
  | star _ ih => exact ih sees.2
  | field _ _ ih =>
      obtain ⟨listed, some⟩ := ih sees.2
      rw [← Path.first_intercalate] at listed some
      rw [Path.first_dotted (Path.ne_empty_of_first some)]
      exact ⟨listed, some⟩

theorem satisfied_declaring (lawful : function.Scoped context.package stmts) :
    (Setting.declaring context function owner stmts).Satisfied := by
  constructor
  case grows =>
    constructor
    · intro env more target within member
      exact List.map_subset _ within member
    · intro env more qualifier member within listed
      exact List.map_subset _ within listed
  case described =>
    intro id listed
    obtain ⟨entity, found, _⟩ := lawful.named id listed
    exact Option.isSome_iff_exists.2 ⟨entity, found⟩
  case missing => exact fun _ => trivial
  case seen => exact fun refers => refers
  case named =>
    intro env name type member pos
    exact List.mem_map.2 ⟨_, member, rfl⟩
  case field =>
    intro visible env names pos typing base name namePos used selection reference tracks sees found
    obtain ⟨start, receiver, entity, indices, path, last, before, rfl, chosen, rfl⟩ :=
      Scope.fieldRef?_eq_some found
    obtain ⟨listed, some⟩ := first_of_leads lawful tracks (Scope.leads_of_path? before) sees.2
    rw [← Path.first_intercalate start path] at listed some
    have present := Path.ne_empty_of_first some
    simpa only [Setting.declaring, declaredFirst, Code.Reference.first, present, ↓reduceIte] using
      listed
  case method =>
    intro visible env names function typing used selection base id entity called found path tracks
      sees chosen _ _ _ _ _
    obtain ⟨pos, inner, name, namePos, inside, leads⟩ := Scope.callee_eq_selected chosen
    have everywhere : function.unparen.Everywhere _ := Expr.Everywhere.unparen sees
    rw [inside] at everywhere
    obtain ⟨listed, some⟩ := first_of_leads lawful tracks (Scope.leads_of_path? leads) everywhere.2
    rw [← Path.first_intercalate base path] at listed some
    have present := Path.ne_empty_of_first some
    have receiver : Code.this ∈ env.map (·.1) := List.mem_map.2 ⟨_, tracks.receiver, rfl⟩
    simp only [Setting.declaring, declaredFirst, Code.qualifierFirst]
    split
    next => simpa only [↓reduceIte] using receiver
    next => simpa only [present, ↓reduceIte] using listed
  case constructor => exact fun _ _ _ => trivial
  case plain => exact fun _ => trivial
  case composite => exact fun _ => trivial

end Satisfied

/-! ## Evaluation -/

section Evaluation

variable {context : Context} {decl : FuncDecl} {entity : Entity} {function : Function}
variable {isConstructor : Bool} {body : Int × List Stmt} {owner : String}

/-- The body of a lowered unit asks for nothing that is not declared. -/
theorem throughout_declaredFirst {unit : Method}
    (lowered : unit = .ofDecl owner (method context decl entity function isConstructor body))
    (lawful : function.Scoped context.package body.2) :
    ∀ block ∈ unit.decl.body,
      Code.Node.Throughout declaredFirst.Meets (Eval.entryNames unit) block.node := by
  subst lowered
  intro block declared
  cases declared
  exact (Setting.declaring context function owner body.2).supports_body
    (satisfied_declaring lawful) rfl ⟨fun _ member => member, lawful.distinct, nofun⟩
    lawful.inScope body.1

/-- What a node looks up is declared, if it asks for nothing that is not. -/
theorem mem_of_looksUp {evaluation : Eval.Context} {site : Eval.Site} {name : String}
    {frame : Eval.Frame} {env : Environment} (looks : site.LooksUp evaluation name frame)
    (meets : declaredFirst.Meets env site.node) : name ∈ env.map (·.1) := by
  cases looks with
  | reference => exact meets
  | target _ => exact meets
  | qualifier => exact meets

/-- Whatever the evaluation of a lowered unit looks up is bound to a variable, which has
the type that the unit declares. -/
theorem first_of_looksUp {evaluation : Eval.Context} {lastId : Nat} {site : Eval.Site}
    {name : String} {frame : Eval.Frame} (lawful : function.Scoped context.package body.2)
    (lowered : evaluation.method =
      .ofDecl owner (method context decl entity function isConstructor body))
    (visits : Eval.Visits evaluation lastId site) (looks : site.LooksUp evaluation name frame) :
    ∃ binding, frame.memory.lookup? site.scope name = some binding ∧
      (name, (frame.memory.binding binding).type) ∈ (Code.this, owner) ::
        (method context decl entity function isConstructor body).variables ∧
      Eval.Step.first evaluation site.scope name frame =
        .ok ((frame.memory.binding binding).object, (frame.memory.binding binding).type) frame := by
  obtain ⟨env, fit⟩ := visits.fit (throughout_declaredFirst lowered lawful)
  rw [lowered] at fit
  exact fit.first_of_looksUp looks (mem_of_looksUp looks fit.throughout.here)

end Evaluation

/-- Lowered units are well scoped and have unique names.  The search for a free name ends
at the first number that makes it free.  Parameters and variables have different names,
none of them that of the receiver, so the type of a name is that of its one declaration.
And if the function refers to variables only where they are visible, then all that the
evaluation looks up is bound, and never a field of the receiver. -/
theorem wellScoped_method (context : Context) (decl : FuncDecl) (entity : Entity)
    (function : Function) (isConstructor : Bool) (body : Int × List Stmt) (owner : String) :
    let lowered := method context decl entity function isConstructor body
    (∀ (names : Names) (name : String), ∃ number ≤ names.taken.size,
      (Action.fresh name names).1 = Names.numbered name number ∧
        names.taken.contains (Names.numbered name number) = false ∧
        ∀ earlier < number, names.taken.contains (Names.numbered name earlier) = true) ∧
      (Code.this :: lowered.variables.map (·.1)).Nodup ∧
      (∀ name type, (Method.ofDecl owner lowered).localType? name = some type ↔
        (name, type) ∈ lowered.variables) ∧
      (function.Scoped context.package body.2 →
        ∀ (evaluation : Eval.Context) (lastId : Nat) (site : Eval.Site) (name : String)
          (frame : Eval.Frame), evaluation.method = .ofDecl owner lowered →
          Eval.Visits evaluation lastId site → site.LooksUp evaluation name frame →
          ∃ binding, frame.memory.lookup? site.scope name = some binding ∧
            (name, (frame.memory.binding binding).type) ∈
              (Code.this, owner) :: lowered.variables ∧
            Eval.Step.first evaluation site.scope name frame =
              .ok ((frame.memory.binding binding).object, (frame.memory.binding binding).type)
                frame) := by
  refine ⟨Names.free_eq, nodup_variables_method context decl entity function isConstructor body,
    localType?_method context decl entity function isConstructor body owner, ?_⟩
  intro lawful evaluation lastId site name frame lowered visits looks
  exact first_of_looksUp lawful lowered visits looks

/-! ## A variable inside another -/

namespace Shadowing

/-- The struct of cells and the variables of a method, two of them with one name. -/
def package : Package where
  path := "cells"
  entities :=
    #[⟨"Cell", 1, .type false false (some [⟨"next", 2, some (.pointer (.named 0)), false⟩])⟩,
      ⟨"c", 3, .var (some (.pointer (.named 0)))⟩, ⟨"x", 4, .var (some (.pointer (.named 0)))⟩,
      ⟨"x", 5, .var (some (.pointer (.named 0)))⟩]
  scope := [0]
  files := []

def function : Function := ⟨"cells", "cells.link", false, some 1, [2], []⟩

/-- A name that uses a variable. -/
def use (pos : Int) (name : String) (id : EntityId) : Expr :=
  .ident none ⟨pos, name, none, some id⟩

/-- A block with `x := x` and `x.next = c`. -/
def stmts : List Stmt :=
  [.block 10 [
    .assign ":=" 11 [.ident none ⟨11, "x", some 3, none⟩] [use 12 "x" 2],
    .assign "=" 13 [.selector 13 none (use 13 "x" 3) "next" 14 none
      (some ⟨.field, some (.pointer (.named 0)), none, [0]⟩)] [use 15 "c" 1]]]

theorem isScoped : function.Scoped package stmts := by
  constructor
  · decide
  · decide
  · have known : function.known stmts = [2, 3] := rfl
    rw [known]
    simp [stmts, function, use, StmtsInScope, Stmt.InScope, Stmt.introduced, introduced,
      Expr.introduced?, Ident.introduced?, Expr.Targets, Expr.Sees, Expr.Everywhere, Expr.Refers,
      Ident.entity?]

def lowered : Code.MethodDecl :=
  method ⟨package, [⟨0, "Cell", 1, [⟨"next", 2, some (.pointer (.named 0)), false⟩]⟩], []⟩ default
    ⟨"link", 6, .function function⟩ function false (9, stmts)

def evaluation : Eval.Context where
  registry := .ofProgram ⟨[⟨0, "Cell", "", [⟨0, "Cell", ["next"]⟩], [lowered]⟩]⟩
  summaries := ∅
  rules := .counting
  method := .ofDecl "Cell" lowered

/-- The inner variable has another name than the outer one. -/
def inner : Code.Node := .localVar 5 "Cell" [("x_1", .reference ⟨12, "", "x"⟩)]

def link : Code.Node := .assign 14 (some ⟨14, "x_1", "next"⟩) (.reference ⟨15, "", "this"⟩)

/-- The evaluation comes to the assignment, and goes on until its value is there. -/
def arrival? : Option (Eval.Site × Eval.Frame) :=
  match Eval.enter evaluation.rules evaluation.method (.ofHeap (.startingAfter 0)) with
  | .error _ _ => none
  | .ok entry memory =>
      match steps entry.root [] (entry.frame memory) with
      | .error _ _ => none
      | .ok outer frame =>
          match steps outer [inner] frame with
          | .error _ _ => none
          | .ok scope frame =>
              match Eval.Step.eval evaluation scope (.reference ⟨15, "", "this"⟩) frame with
              | .error _ _ => none
              | .ok _ reached => some (⟨scope, link, frame⟩, reached)
where
  steps (scope : ScopeId) (past : List Code.Node) : Eval.Step ScopeId := do
    let child ← Eval.Step.onMemory (Memory.openChild scope)
    Eval.Step.block evaluation child past
    return child

theorem visits_of_arrival? {site : Eval.Site} {frame : Eval.Frame}
    (arrives : arrival? = some (site, frame)) :
    Eval.Visits evaluation 0 site ∧ site.LooksUp evaluation "x_1" frame := by
  unfold arrival? at arrives
  split at arrives
  · cases arrives
  next entry memory entered =>
    split at arrives
    · cases arrives
    next outer frame before =>
      split at arrives
      · cases arrives
      next scope frame past =>
        split at arrives
        · cases arrives
        next value reached evaluated =>
          cases arrives
          have first : Eval.Visits evaluation 0 ⟨outer, .block 10 [inner, link], _⟩ :=
            .stmt entered rfl (@Eval.Site.Enters.stmt _ _ _ _ [] [] _ _ _ before)
          refine ⟨first.inside (@Eval.Site.Enters.stmt _ _ _ _ [inner] [] _ _ _ past), ?_⟩
          exact .target evaluated

/-- The inner variable is bound when it is assigned to. -/
theorem wellScoped_shadowing : function.Scoped package stmts ∧
    ∃ site frame, Eval.Visits evaluation 0 site ∧ site.LooksUp evaluation "x_1" frame ∧
      ∃ binding, frame.memory.lookup? site.scope "x_1" = some binding ∧
        ("x_1", (frame.memory.binding binding).type) ∈ [("this", "Cell"), ("x", "Cell"),
          ("x_1", "Cell")] := by
  refine ⟨isScoped, ?_⟩
  have arrives : arrival?.isSome = true := by decide +kernel
  obtain ⟨⟨site, frame⟩, found⟩ := Option.isSome_iff_exists.1 arrives
  obtain ⟨visits, looks⟩ := visits_of_arrival? found
  obtain ⟨binding, bound, typed, _⟩ := (wellScoped_method _ _ _ _ _ (9, stmts) "Cell").2.2.2
    isScoped evaluation 0 site "x_1" frame rfl visits looks
  exact ⟨site, frame, visits, looks, binding, bound, typed⟩

end Shadowing

end Custody.Lowering
