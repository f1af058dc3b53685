import Custody.Lowering.Program
import Custody.Proofs.Code.Resolution
import Custody.Proofs.Lowering.Names
import Custody.Proofs.Lowering.Steps
import Custody.Registry

/-!
# What a lowered unit declares

Whatever the syntax of a function, its parameters and all variables that its body
declares have different names, and none has that of the receiver.  A name is taken
when it is given, for good, so no later declaration gets it again.
-/

namespace Custody.Lowering

open Source
open Code.Node (declarations)

/-- The name of the receiver is taken, and so is every name that a variable has. -/
structure Names.Reserved (names : Names) : Prop where
  this : names.taken.contains Code.this = true
  given : ∀ {id name}, names.of? id = some name → name ≠ "" ∧ names.taken.contains name = true

/-- Some names are taken that were free, each of them once. -/
structure Takes (before : Names) (given : List String) (after : Names) : Prop where
  grows : ∀ {name}, before.taken.contains name = true → after.taken.contains name = true
  fresh : ∀ name ∈ given, before.taken.contains name = false ∧ after.taken.contains name = true
  distinct : given.Nodup
  reserved : before.Reserved → after.Reserved

namespace Takes

variable {before middle after names : Names} {given more : List String}

theorem nil (names : Names) : Takes names [] names :=
  ⟨id, by simp, .nil, id⟩

theorem append (first : Takes before given middle) (second : Takes middle more after) :
    Takes before (given ++ more) after := by
  constructor
  · intro name taken
    exact second.grows (first.grows taken)
  · intro name member
    rcases List.mem_append.1 member with earlier | later
    · obtain ⟨free, taken⟩ := first.fresh name earlier
      exact ⟨free, second.grows taken⟩
    · obtain ⟨free, taken⟩ := second.fresh name later
      refine ⟨?_, taken⟩
      cases known : before.taken.contains name with
      | false => rfl
      | true =>
          rw [first.grows known] at free
          cases free
  · refine List.nodup_append.2 ⟨first.distinct, second.distinct, ?_⟩
    rintro name earlier _ later rfl
    have taken := (first.fresh name earlier).2
    rw [(second.fresh name later).1] at taken
    cases taken
  · exact fun reserved => second.reserved (first.reserved reserved)

theorem contains_free (names : Names) (name : String) :
    names.taken.contains (names.free name) = false := by
  obtain ⟨number, _, same, free, _⟩ := names.free_eq name
  rw [same]
  exact free

theorem free_ne_empty (names : Names) {name : String} (some : name ≠ "") :
    names.free name ≠ "" := by
  obtain ⟨number, _, same, _⟩ := names.free_eq name
  rw [same, Names.numbered]
  split
  · exact some
  · simp [some]

/-- Taking a name that is free, perhaps for a variable. -/
theorem free (names : Names) {name : String} (some : name ≠ "") {given : Table EntityId String}
    (known : ∀ id other, given.find? id = .some other →
      other = names.free name ∨ names.of? id = .some other) :
    Takes names [names.free name] ⟨given, names.taken.add (names.free name)⟩ := by
  refine ⟨?_, ?_, List.nodup_singleton _, fun reserved => ⟨?_, ?_⟩⟩
  · intro other taken
    rw [KeySet.contains_add]
    exact .inr taken
  · intro other member
    rw [List.mem_singleton.1 member, KeySet.contains_add]
    exact ⟨contains_free names name, .inl rfl⟩
  · exact KeySet.contains_add.2 (.inr reserved.this)
  · intro id other found
    rw [KeySet.contains_add]
    rcases known id other found with rfl | earlier
    · exact ⟨free_ne_empty names some, .inl rfl⟩
    · exact ⟨(reserved.given earlier).1, .inr (reserved.given earlier).2⟩

theorem give (names : Names) (id : EntityId) (entity : Entity) :
    Takes names [names.free (Names.wish entity)] (names.give id entity) := by
  refine free names ?_ fun other name found => ?_
  · unfold Names.wish
    split
    · decide
    next plain =>
      simp only [Bool.or_eq_true, decide_eq_true_eq, not_or] at plain
      exact plain.1
  · have given := names.of?_give id entity other
    rw [Names.of?, Names.give, found] at given
    split at given
    · exact .inl (Option.some.inj given)
    · exact .inr given.symm

end Takes

/-- Some nodes are statements that declare names which were free. -/
structure Declares (before : Names) (nodes : List Code.Node) (after : Names) : Prop where
  statements : ∀ node ∈ nodes, node.IsStatement
  takes : Takes before ((declarations nodes).map (·.1)) after

namespace Declares

variable {before middle after names : Names} {nodes others : List Code.Node} {α : Type}

theorem nothing (statements : ∀ node ∈ nodes, node.IsStatement)
    (none : declarations nodes = []) (names : Names) : Declares names nodes names := by
  refine ⟨statements, ?_⟩
  rw [none]
  exact .nil names

theorem nil (names : Names) : Declares names [] names :=
  nothing (by simp) rfl names

theorem expressions (each : ∀ node ∈ nodes, node.IsExpression) (names : Names) :
    Declares names nodes names :=
  nothing (fun node member => .expression (each node member))
    (Code.Node.declarations_eq_nil fun node member => (each node member).declarations) names

theorem expression {node : Code.Node} (computes : node.IsExpression) (names : Names) :
    Declares names [node] names :=
  expressions (by simpa using computes) names

theorem append (first : Declares before nodes middle) (second : Declares middle others after) :
    Declares before (nodes ++ others) after := by
  constructor
  · intro node member
    exact (List.mem_append.1 member).elim (first.statements node) (second.statements node)
  · rw [Code.Node.declarations_append, List.map_append]
    exact first.takes.append second.takes

theorem block (inside : Declares before nodes after) (pos : Int) :
    Declares before [.block pos nodes] after := by
  constructor
  · intro node member
    rw [List.mem_singleton.1 member]
    exact .block inside.statements
  · rw [Code.Node.declarations_block]
    exact inside.takes

theorem localVar {name : String} {init : Code.Node} (computes : init.IsExpression)
    (takes : Takes before [name] after) (pos : Int) (type : String) :
    Declares before [.localVar pos type [(name, init)]] after := by
  constructor
  · intro node member
    rw [List.mem_singleton.1 member]
    exact .localVar computes
  · have inner := computes.declarations
    have declares : declarations [.localVar pos type [(name, init)]] = [(name, type)] := by
      simp only [declarations, Code.Node.preorderAll, Code.Node.preorder, Code.Node.preorderNamed,
        List.append_nil, List.flatMap_cons] at inner ⊢
      rw [inner]
      rfl
    rw [declares]
    exact takes

theorem flatten {step : α → Action (List Code.Node)} {items : List α}
    (each : ∀ item ∈ items, ∀ names, Declares names (step item names).1 (step item names).2)
    (names : Names) :
    Declares names (items.mapM step names).1.flatten (items.mapM step names).2 := by
  induction items generalizing names with
  | nil => exact nothing (by simp [Action.mapM_nil]) rfl names
  | cons item rest ih =>
      rw [Action.mapM_cons, List.flatten_cons]
      exact (each item (.head _) names).append
        (ih (fun other member => each other (.tail _ member)) _)

theorem mapM {step : α → Action Code.Node} {items : List α}
    (each : ∀ item ∈ items, ∀ names, Declares names [(step item names).1] (step item names).2)
    (names : Names) : Declares names (items.mapM step names).1 (items.mapM step names).2 := by
  induction items generalizing names with
  | nil => exact nothing (by simp [Action.mapM_nil]) rfl names
  | cons item rest ih =>
      rw [Action.mapM_cons]
      exact (each item (.head _) names).append
        (ih (fun other member => each other (.tail _ member)) _)

end Declares

/-! ## Expressions -/

theorem Scope.isExpression_call {scope : Scope} {pos : Int} {type : Option Ty} {callee : Scope.Callee}
    {args : List Code.Node} {node : Code.Node} (called : scope.Called pos type callee args node)
    (each : ∀ arg ∈ args, arg.IsExpression) : node.IsExpression := by
  have named : ∀ arg ∈ args.map (("" : String), ·), arg.2.IsExpression := by
    intro arg member
    obtain ⟨node, listed, rfl⟩ := List.mem_map.1 member
    exact each node listed
  cases called with
  | converted single =>
      apply each
      simp [single]
  | unsupported construct => exact .unsupported _ _
  | operation op => exact .operation each
  | allocated => exact .new (by simp)
  | appended => exact .new named
  | constructed => exact .new named
  | method => exact .call each

/-- A lowered expression has no statements in it. -/
theorem Scope.isExpression_expr (scope : Scope) (value : Expr) : (scope.expr value).IsExpression := by
  have respects : scope.Respects (fun _ => True) Code.Node.IsExpression := by
    constructor
    case absent => exact .absent
    case literal => exact .literal
    case unsupported => exact .unsupported
    case operation => exact fun _ _ _ each => .operation each
    case ident =>
      intro typing name _
      unfold Scope.ident
      split
      · split
        · exact .reference _
        · exact .unsupported _ _
      · exact .unsupported _ _
      · exact .literal _ _ _
    case selected =>
      intro pos typing base name namePos used selection _
      unfold Scope.selected
      split
      · exact .unsupported _ _
      · split
        · exact .reference _
        · exact .unsupported _ _
    case composite => exact fun _ _ _ _ _ _ each => .new each
    case call =>
      intro pos typing function args nodes _ _ each
      exact isExpression_call (scope.called_call pos _ _ nodes) each
  exact respects.expr value (value.everywhere_of_forall fun _ => trivial)

/-! ## Statements -/

namespace Unit

variable (unit : Unit)

theorem isExpression_values (right : List Expr) (count : Nat) (names : Names) :
    ∀ node ∈ (unit.values right count names).1, node.IsExpression := by
  intro node member
  rcases (unit.values_cases right count names).2 node member with rfl | ⟨value, _, rfl⟩
  · exact .absent
  · exact Scope.isExpression_expr _ value

theorem isExpression_computed {value : Code.Node} (computes : value.IsExpression) :
    ∀ node ∈ computed value, node.IsExpression := by
  intro node member
  unfold computed at member
  split at member
  · rw [List.mem_singleton.1 member]
    exact computes
  · cases member

theorem declares_store {value : Code.Node} (computes : value.IsExpression) (target : Expr)
    (names : Names) :
    Declares names (unit.store target value names).1 (unit.store target value names).2 := by
  obtain ⟨nodes, same, stored⟩ := unit.store_cases target value names
  rw [same]
  have assigned : ∀ pos reference,
      Declares names [.assign pos (some reference) value] names := by
    intro pos reference
    refine .nothing ?_ ?_ names
    · intro node member
      rw [List.mem_singleton.1 member]
      exact .assign computes
    · have inner := computes.declarations
      simpa [declarations, Code.Node.preorderAll, Code.Node.preorder, Code.Node.declared] using inner
  cases stored with
  | ignored => exact .expressions (isExpression_computed computes) names
  | discarded inside construct =>
      exact (Declares.expressions (isExpression_computed computes) names).append
        (.expression (.unsupported _ _) names)
  | bound => exact assigned _ _
  | field => exact assigned _ _

theorem declares_localVar {init : Code.Node} (computes : init.IsExpression) (id : EntityId)
    (names : Names) :
    Declares names [(unit.localVar id init names).1] (unit.localVar id init names).2 := by
  rcases unit.localVar_cases id init names with ⟨_, same⟩ | ⟨entity, _, same⟩
  · rw [same]
    exact .expression .absent names
  · rw [same]
    exact .localVar computes (.give names id entity) _ _

theorem isExpression_zero (pos : Int) (type : Option Ty) : (unit.zero pos type).IsExpression := by
  unfold zero
  split
  · exact .absent
  · split
    · exact .new (by simp)
    · exact .absent

theorem declares_declareVar (hasValues : Bool) (name : Ident) {value : Code.Node}
    (computes : value.IsExpression) (names : Names) :
    Declares names (unit.declareVar hasValues name value names).1
      (unit.declareVar hasValues name value names).2 := by
  rcases unit.declareVar_cases hasValues name value with ⟨id, init, _, shape, same⟩ | ⟨_, same⟩
  · rw [same]
    refine unit.declares_localVar ?_ id names
    rcases shape with rfl | ⟨_, rfl⟩
    · exact computes
    · exact unit.isExpression_zero _ _
  · rw [same]
    exact .expressions (isExpression_computed computes) names

theorem declares_declareSpec (spec : ValueSpec) (names : Names) :
    Declares names (unit.declareSpec spec names).1 (unit.declareSpec spec names).2 := by
  have values := unit.isExpression_values spec.values spec.names.length names
  have same := (unit.values_cases spec.values spec.names.length names).1
  unfold declareSpec
  simp only [Action.bind_apply, Action.pure_apply, same]
  refine .flatten ?_ names
  rintro ⟨name, value⟩ member names
  exact unit.declares_declareVar _ name (values value (List.of_mem_zip member).2) names

theorem declares_temporary (source : Expr) {value : Code.Node} (computes : value.IsExpression)
    (names : Names) :
    Declares names (unit.temporary source value names).1.1 (unit.temporary source value names).2 ∧
      (unit.temporary source value names).1.2.IsExpression := by
  unfold temporary
  split
  · refine ⟨.localVar computes (.free names (by decide) fun _ _ known => .inr known) _ _, ?_⟩
    exact .reference _
  · exact ⟨.expressions (by simp) names, computes⟩

/-- Values are taken into temporaries one after the other. -/
theorem declares_temporaries (values : List (Expr × Code.Node))
    (computes : ∀ value ∈ values, value.2.IsExpression) (names : Names) :
    let taken := (values.mapM fun (source, value) => unit.temporary source value : Action _) names
    Declares names (taken.1.map (·.1)).flatten taken.2 ∧
      ∀ value ∈ taken.1.map (·.2), value.IsExpression := by
  induction values generalizing names with
  | nil => exact ⟨.expressions (by simp [Action.mapM_nil]) names, by simp [Action.mapM_nil]⟩
  | cons first rest ih =>
      obtain ⟨declares, computed⟩ := unit.declares_temporary first.1 (computes first (.head _)) names
      obtain ⟨later, others⟩ := ih (fun value member => computes value (.tail _ member))
        (unit.temporary first.1 first.2 names).2
      simp only [Action.mapM_cons, List.map_cons, List.flatten_cons]
      refine ⟨declares.append later, ?_⟩
      intro value member
      rcases List.mem_cons.1 member with rfl | member
      · exact computed
      · exact others value member

theorem declares_assignOne (defines : Bool) (target : Expr) {value : Code.Node}
    (computes : value.IsExpression) (names : Names) :
    Declares names (unit.assignOne defines target value names).1
      (unit.assignOne defines target value names).2 := by
  rw [Unit.assignOne_eq]
  split
  · exact unit.declares_localVar computes _ names
  · exact unit.declares_store computes target names

theorem declares_stores (defines : Bool) (pairs : List (Expr × Code.Node))
    (computes : ∀ pair ∈ pairs, pair.2.IsExpression) (names : Names) :
    let stores := (pairs.mapM fun (target, value) => unit.assignOne defines target value : Action _)
      names
    Declares names stores.1.flatten stores.2 := by
  refine .flatten ?_ names
  rintro ⟨target, value⟩ member names
  exact unit.declares_assignOne defines target (computes _ member) names

theorem declares_assignAll (defines : Bool) (left right : List Expr) (names : Names) :
    Declares names (unit.assignAll defines left right names).1
      (unit.assignAll defines left right names).2 := by
  have values := unit.isExpression_values right left.length names
  have same := (unit.values_cases right left.length names).1
  unfold assignAll
  simp only [Action.bind_apply, same]
  split
  · simp only [Action.bind_apply, Action.pure_apply]
    obtain ⟨taken, computed⟩ :=
      unit.declares_temporaries (right.zip (unit.values right left.length names).1)
        (fun pair member => values pair.2 (List.of_mem_zip member).2) names
    exact taken.append (unit.declares_stores defines _
      (fun pair member => computed pair.2 (List.of_mem_zip member).2) _)
  · simp only [Action.bind_apply, Action.pure_apply]
    exact unit.declares_stores defines _
      (fun pair member => values pair.2 (List.of_mem_zip member).2) names

theorem declares_assign (op : String) (opPos : Int) (left right : List Expr) (names : Names) :
    Declares names (unit.assign op opPos left right names).1
      (unit.assign op opPos left right names).2 := by
  unfold assign
  split
  · exact unit.declares_assignAll _ left right names
  · simp only [Action.bind_apply, Unit.mapM_expr]
    refine unit.declares_store (.operation ?_) _ names
    intro operand member
    obtain ⟨value, _, rfl⟩ := List.mem_map.1 member
    exact Scope.isExpression_expr _ value

theorem declares_returned (pos : Int) (values : List Expr) (names : Names) :
    Declares names [(unit.returned pos values names).1] (unit.returned pos values names).2 := by
  have returns : ∀ nodes : List Code.Node, (∀ node ∈ nodes, node.IsExpression) →
      Declares names [.ret pos nodes] names := by
    intro nodes each
    refine .nothing ?_ ?_ names
    · intro node member
      rw [List.mem_singleton.1 member]
      exact .ret each
    · have inner := Code.Node.declarations_eq_nil fun node member => (each node member).declarations
      simpa [declarations, Code.Node.preorderAll, Code.Node.preorder, Code.Node.declared] using inner
  unfold returned
  split
  · refine returns _ ?_
    intro node member
    obtain ⟨name, _, rfl⟩ := List.mem_map.1 member
    exact .reference _
  · simp only [Action.bind_apply, Action.pure_apply, Unit.mapM_expr]
    refine returns _ ?_
    intro node member
    obtain ⟨value, _, rfl⟩ := List.mem_map.1 member
    exact Scope.isExpression_expr _ value

theorem isExpression_element (target : Expr) : (unit.element target).IsExpression := by
  unfold element
  split
  · exact .unsupported _ _
  · exact .literal _ _ _

theorem declares_rangeElement (defines : Bool) (target : Option Expr) (names : Names) :
    Declares names (unit.rangeElement defines target names).1
      (unit.rangeElement defines target names).2 := by
  cases target with
  | none => exact .nil names
  | some target =>
      have computes := unit.isExpression_element target
      rcases unit.rangeElement_cases defines target with ⟨id, _, same⟩ | ⟨_, same | same⟩
      · rw [same]
        exact unit.declares_localVar computes id names
      · rw [same]
        exact unit.declares_store computes target names
      · rw [same]
        exact .nil names

theorem declares_clauseHead (subject : Option Expr) (head : ClauseHead) (names : Names) :
    Declares names (unit.clauseHead subject head names).1
      (unit.clauseHead subject head names).2 := by
  cases head with
  | cases exprs =>
      simp only [clauseHead, Unit.mapM_expr]
      refine .expressions ?_ names
      intro node member
      obtain ⟨value, _, rfl⟩ := List.mem_map.1 member
      exact Scope.isExpression_expr _ value
  | «implicit» entity =>
      cases entity with
      | none => exact .nil names
      | some id =>
          cases subject with
          | none => exact .nil names
          | some subject =>
              exact unit.declares_localVar (Scope.isExpression_expr _ subject) id names
  | communication pos =>
      cases pos with
      | none => exact .nil names
      | some pos => exact .expression (.unsupported _ _) names

theorem declares_exprs (values : List Expr) (names : Names) :
    Declares names (values.mapM unit.expr names).1 (values.mapM unit.expr names).2 := by
  rw [Unit.mapM_expr]
  refine .expressions ?_ names
  intro node member
  obtain ⟨value, _, rfl⟩ := List.mem_map.1 member
  exact Scope.isExpression_expr _ value

mutual

/-- A statement declares names that were free. -/
theorem declares_stmt : (stmt : Stmt) → (names : Names) →
    Declares names (unit.stmt stmt names).1 (unit.stmt stmt names).2
  | .empty, names => by
      rw [Unit.stmt]
      exact .nil names
  | .send pos, names => by
      rw [Unit.stmt]
      exact .expression (.unsupported _ _) names
  | .bad pos, names => by
      rw [Unit.stmt]
      exact .expression (.unsupported _ _) names
  | .block pos list, names => by
      rw [Unit.stmt]
      exact (declares_stmts list names).block pos
  | .expr value, names => by
      rw [Unit.stmt]
      exact .expression (Scope.isExpression_expr _ value) names
  | .vars specs, names => by
      rw [Unit.stmt]
      exact .flatten (fun spec _ names => unit.declares_declareSpec spec names) names
  | .assign op opPos left right, names => by
      rw [Unit.stmt]
      exact unit.declares_assign op opPos left right names
  | .incDec op opPos target, names => by
      rw [Unit.stmt]
      refine unit.declares_store (.operation ?_) target names
      intro operand member
      rw [List.mem_singleton.1 member]
      exact Scope.isExpression_expr _ target
  | .ret pos values, names => by
      rw [Unit.stmt]
      exact unit.declares_returned pos values names
  | .cond pos init test bodyPos body otherwise, names => by
      rw [Unit.stmt]
      have first := declares_stmt init names
      have inner := (declares_stmts body (unit.stmt init names).2).block bodyPos
      have other := declares_stmt otherwise (unit.stmts body (unit.stmt init names).2).2
      have tested := (Declares.expression (Scope.isExpression_expr
        (unit.withNames (unit.stmt init names).2) test) _).append inner
      exact ((first.append tested).append other).block pos
  | .loop pos init test post bodyPos body, names => by
      rw [Unit.stmt]
      have first := declares_stmt init names
      have tested := unit.declares_exprs test.toList (unit.stmt init names).2
      simp only [Action.bind_apply, Action.pure_apply, Unit.mapM_expr] at tested ⊢
      have inner := (declares_stmts body (unit.stmt init names).2).block bodyPos
      have last := declares_stmt post (unit.stmts body (unit.stmt init names).2).2
      exact (((first.append tested).append inner).append last).block pos
  | .range pos defines key value collection bodyPos body, names => by
      rw [Unit.stmt]
      have first := Declares.expression (Scope.isExpression_expr (unit.withNames names) collection)
        names
      have keys := unit.declares_rangeElement defines key names
      have values := unit.declares_rangeElement defines value
        (unit.rangeElement defines key names).2
      have inner := (declares_stmts body (unit.rangeElement defines value
        (unit.rangeElement defines key names).2).2).block bodyPos
      exact (((first.append keys).append values).append inner).block pos
  | .switch pos init tag clauseList, names => by
      rw [Unit.stmt]
      have first := declares_stmt init names
      have tagged := unit.declares_exprs tag.toList (unit.stmt init names).2
      simp only [Action.bind_apply, Action.pure_apply, Unit.mapM_expr] at tagged ⊢
      have blocks := declares_clauses none clauseList (unit.stmt init names).2
      exact ((first.append tagged).append blocks).block pos
  | .typeSwitch pos init binds subject clauseList, names => by
      rw [Unit.stmt]
      have first := declares_stmt init names
      simp only [Action.bind_apply]
      have blocks := declares_clauses (if binds then some subject else none) clauseList
        (unit.stmt init names).2
      cases binds with
      | true =>
          have tested : Declares _ [] _ := .nil (unit.stmt init names).2
          exact ((first.append tested).append blocks).block pos
      | false =>
          have tested := unit.declares_exprs [subject] (unit.stmt init names).2
          simp only [Bool.false_eq_true, ↓reduceIte, Unit.mapM_expr] at tested blocks ⊢
          exact ((first.append tested).append blocks).block pos
  | .select pos clauseList, names => by
      rw [Unit.stmt]
      exact (declares_clauses none clauseList names).block pos
  | .labeled inner, names => by
      rw [Unit.stmt]
      exact declares_stmt inner names
  termination_by structural stmt => stmt

theorem declares_stmts : (stmts : List Stmt) → (names : Names) →
    Declares names (unit.stmts stmts names).1 (unit.stmts stmts names).2
  | [], names => by
      rw [Unit.stmts]
      exact .nil names
  | first :: rest, names => by
      rw [Unit.stmts]
      exact (declares_stmt first names).append (declares_stmts rest _)
  termination_by structural stmts => stmts

theorem declares_clause (subject : Option Expr) : (clause : Clause) → (names : Names) →
    Declares names [(unit.clause subject clause names).1] (unit.clause subject clause names).2
  | .mk pos head body, names => by
      rw [Unit.clause]
      exact ((unit.declares_clauseHead subject head names).append (declares_stmts body _)).block pos
  termination_by structural clause => clause

theorem declares_clauses (subject : Option Expr) : (clauses : List Clause) → (names : Names) →
    Declares names (unit.clauses subject clauses names).1 (unit.clauses subject clauses names).2
  | [], names => by
      rw [Unit.clauses]
      exact .nil names
  | first :: rest, names => by
      rw [Unit.clauses]
      exact (declares_clause subject first names).append (declares_clauses subject rest _)
  termination_by structural clauses => clauses

end

end Unit

/-! ## Units -/

theorem params_cons (context : Context) (id : EntityId) (rest : List EntityId) (names : Names) :
    let entity := (context.package.entity? id).getD default
    params context (id :: rest) names =
      (⟨entity.pos, names.free (Names.wish entity), context.typeName (context.entityType id),
          context.byValue (context.entityType id)⟩ ::
        (params context rest (names.give id entity)).1,
        (params context rest (names.give id entity)).2) := by
  unfold params
  rw [Action.mapM_cons]
  rfl

theorem takes_params (context : Context) (ids : List EntityId) (names : Names) :
    Takes names ((params context ids names).1.map (·.name)) (params context ids names).2 := by
  induction ids generalizing names with
  | nil => exact .nil names
  | cons id rest ih =>
      rw [params_cons]
      exact (Takes.give names id ((context.package.entity? id).getD default)).append (ih _)

theorem declares_namedResults (unit : Unit) (names : Names) :
    Declares names (namedResults unit names).1 (namedResults unit names).2 :=
  .mapM (fun id _ names => unit.declares_localVar .absent id names) names

/-- The unit of a function. -/
def Unit.of (context : Context) (function : Function) : Unit :=
  ⟨context, function.receiver, function.results⟩

/-- The names when the parameters have theirs. -/
def Names.ofParams (context : Context) (function : Function) : Names :=
  (params context function.params .start).2

/-- The names when the named results have theirs, too. -/
def Names.ofResults (context : Context) (function : Function) : Names :=
  (namedResults (.of context function) (.ofParams context function)).2

/-- The names of parameters and named results are taken before the body. -/
theorem Names.reserved_ofResults (context : Context) (function : Function) :
    (Names.ofResults context function).Reserved := by
  have start : Names.start.Reserved := by
    refine ⟨KeySet.contains_add.2 (.inl rfl), fun given => ?_⟩
    rw [Names.of?, Names.start, Table.find?_empty] at given
    cases given
  have results := declares_namedResults (.of context function) (.ofParams context function)
  exact results.takes.reserved ((takes_params context function.params .start).reserved start)

/-- The statements of a body, after the declarations of the named results. -/
def Unit.bodyStmts (context : Context) (function : Function) (stmts : List Stmt) :
    List Code.Node :=
  (namedResults (.of context function) (.ofParams context function)).1 ++
    ((Unit.of context function).stmts stmts (.ofResults context function)).1

section Method

variable (context : Context) (decl : FuncDecl) (entity : Entity) (function : Function)
variable (isConstructor : Bool) (body : Int × List Stmt)

theorem method_params : (method context decl entity function isConstructor body).params =
    (params context function.params .start).1 := rfl

theorem method_body : (method context decl entity function isConstructor body).body =
    some ⟨body.1, Unit.bodyStmts context function body.2⟩ := rfl

theorem variables_method : (method context decl entity function isConstructor body).variables =
    (params context function.params .start).1.map (fun param => (param.name, param.type)) ++
      declarations (Unit.bodyStmts context function body.2) := by
  rw [← Code.Node.declarations_block body.1]
  simp only [Code.MethodDecl.variables, Code.MethodDecl.nodes, method_params, method_body,
    Code.Block.node, declarations, Code.Node.preorderAll, List.append_nil]

/-- The names of the parameters and variables of a unit differ from each other and from
that of the receiver. -/
theorem nodup_variables_method :
    (Code.this :: (method context decl entity function isConstructor body).variables.map
      (·.1)).Nodup := by
  have first := takes_params context function.params .start
  have results := declares_namedResults (.of context function) (.ofParams context function)
  have stmts := (Unit.of context function).declares_stmts body.2 (.ofResults context function)
  have takes := first.append (results.append stmts).takes
  rw [variables_method, List.map_append, List.map_map]
  refine List.nodup_cons.2 ⟨?_, takes.distinct⟩
  intro member
  have free := (takes.fresh Code.this member).1
  have taken : Names.start.taken.contains Code.this = true := KeySet.contains_add.2 (.inl rfl)
  rw [taken] at free
  cases free

/-- The type of a name is that of its one declaration. -/
theorem localType?_method (owner name type : String) :
    (Method.ofDecl owner (method context decl entity function isConstructor body)).localType?
        name = some type ↔
      (name, type) ∈ (method context decl entity function isConstructor body).variables := by
  have distinct := nodup_variables_method context decl entity function isConstructor body
  exact Method.localType?_ofDecl (List.nodup_cons.1 distinct).2 owner name type

end Method

end Custody.Lowering
