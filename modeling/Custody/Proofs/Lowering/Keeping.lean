import Custody.Proofs.Lowering.Conservation

/-!
# What lowered statements keep

The nodes of a statement keep every expression of it: the expression's own node is among
them, or an unsupported construct stands for an expression around it.  This is what
`Unit.Keeps` says of a single expression and `Unit.KeepsAll` of the fragments of statements.
It holds whatever names have been given, so that it goes from the parts of a statement to
the whole without regard to the order in which they are lowered.
-/

namespace Custody.Lowering

open Source Code.Node

section Steps

variable {α β : Type} (step : α → Action β) {items : List α}

/-- The step is taken for every item, with some names given by then. -/
theorem Action.exists_mem_mapM {item : α} (listed : item ∈ items) (names : Names) :
    ∃ given, (step item given).1 ∈ (items.mapM step names).1 := by
  induction items generalizing names with
  | nil => cases listed
  | cons first rest ih =>
      rw [Action.mapM_cons]
      rcases List.mem_cons.1 listed with rfl | listed
      · exact ⟨names, .head _⟩
      · obtain ⟨given, member⟩ := ih listed (step first names).2
        exact ⟨given, .tail _ member⟩

theorem Action.length_mapM (items : List α) (names : Names) :
    (items.mapM step names).1.length = items.length := by
  induction items generalizing names with
  | nil => rfl
  | cons first rest ih =>
      rw [Action.mapM_cons]
      exact congrArg (· + 1) (ih _)

end Steps

section Pairs

variable {α β : Type} {left : List α} {right : List β}

theorem exists_mem_zip_of_right (fits : right.length ≤ left.length) {item : β}
    (listed : item ∈ right) : ∃ other, (other, item) ∈ left.zip right := by
  rw [← List.map_snd_zip fits] at listed
  obtain ⟨⟨other, _⟩, paired, rfl⟩ := List.mem_map.1 listed
  exact ⟨other, paired⟩

theorem exists_mem_zip_of_left (fits : left.length ≤ right.length) {item : α}
    (listed : item ∈ left) : ∃ other, (item, other) ∈ left.zip right := by
  rw [← List.map_fst_zip fits] at listed
  obtain ⟨⟨_, other⟩, paired, rfl⟩ := List.mem_map.1 listed
  exact ⟨other, paired⟩

end Pairs

namespace Unit

variable (unit : Unit)

/-- An expression has no lowering where it is computed, or where it is assigned to, and an
unsupported construct stands for it. -/
def Refuses (value : Expr) (construct : String) : Prop :=
  ∃ names, (unit.withNames names).expr value = .unsupported value.pos construct ∨
    ∃ stored, (unit.store value stored names).1 =
      computed stored ++ [.unsupported value.pos construct]

/-- An unsupported construct among nodes stands for an expression that is inside one and has
another inside. -/
def Replaced (value inner : Expr) (nodes : List Code.Node) : Prop :=
  ∃ outer construct, value.Encloses outer ∧ outer.Encloses inner ∧
    unit.Refuses outer construct ∧ .unsupported outer.pos construct ∈ nodes

/-- What there is of an expression inside another among nodes. -/
inductive Keeps (value inner : Expr) (nodes : List Code.Node) : Prop where
  | whole (names : Names) (among : (unit.withNames names).expr inner ∈ nodes)
  | replaced (replaced : unit.Replaced value inner nodes)
  | omitted (omits : value.Omits inner)

/-- An expression that has a node of its own whatever names have been given. -/
structure HasNode (inner : Expr) : Prop where
  computed : inner.isPlace = false
  present : ∀ names, ((unit.withNames names).expr inner).isPresent = true

/-- Variables that the package knows. -/
def Knows (ids : List EntityId) : Prop :=
  ∀ id ∈ ids, (unit.context.package.entity? id).isSome = true

theorem knows_append {ids more : List EntityId} :
    unit.Knows (ids ++ more) ↔ unit.Knows ids ∧ unit.Knows more := List.forall_mem_append

variable {unit} {value inner : Expr} {nodes others : List Code.Node} {names : Names}

theorem Keeps.mono (keeps : unit.Keeps value inner nodes) (within : nodes ⊆ others) :
    unit.Keeps value inner others := by
  cases keeps with
  | whole names among => exact .whole names (within among)
  | replaced replaced =>
      obtain ⟨outer, construct, inside, around, refuses, among⟩ := replaced
      exact .replaced ⟨outer, construct, inside, around, refuses, within among⟩
  | omitted omits => exact .omitted omits

theorem Keeps.outward {operand : Expr} (keeps : unit.Keeps operand inner nodes)
    (listed : operand ∈ value.operands) : unit.Keeps value inner nodes := by
  cases keeps with
  | whole names among => exact .whole names among
  | replaced replaced =>
      obtain ⟨outer, construct, inside, kept⟩ := replaced
      exact .replaced ⟨outer, construct, .head listed inside, kept⟩
  | omitted omits =>
      obtain ⟨outer, inside, omitted⟩ := omits
      exact .omitted ⟨outer, .head listed inside, omitted⟩

/-- The nodes of one of several steps are among those of all of them. -/
theorem exists_subset_flatten {α : Type} (step : α → Action (List Code.Node)) {items : List α}
    {item : α} (listed : item ∈ items) (names : Names) :
    ∃ given, preorderAll (step item given).1 ⊆ preorderAll (items.mapM step names).1.flatten := by
  obtain ⟨given, among⟩ := Action.exists_mem_mapM step listed names
  refine ⟨given, preorderAll_subset ?_⟩
  intro node member
  exact List.mem_flatten.2 ⟨_, among, member⟩

theorem Keeps.flatten {α : Type} {step : α → Action (List Code.Node)} {items : List α} {item : α}
    (listed : item ∈ items)
    (each : ∀ names, unit.Keeps value inner (preorderAll (step item names).1)) (names : Names) :
    unit.Keeps value inner (preorderAll (items.mapM step names).1.flatten) := by
  obtain ⟨given, within⟩ := exists_subset_flatten step listed names
  exact (each given).mono within

/-- A lowered expression keeps what is inside it. -/
theorem keeps_expr (hasNode : unit.HasNode inner) (inside : value.Encloses inner) (names : Names) :
    unit.Keeps value inner ((unit.withNames names).expr value).preorder := by
  induction inside using Relation.ReflTransGen.head_induction_on with
  | refl => exact .whole names (mem_preorder_self (hasNode.present names))
  | @head outer operand listed inside ih =>
      by_cases kept : operand ∈ outer.leftOut
      case pos => exact .omitted ⟨outer, .refl, operand, kept, inside⟩
      case neg =>
        rcases Scope.expr_operand listed kept inside hasNode.computed with
          below | ⟨construct, same⟩
        · exact (ih.mono below).outward listed
        · refine .replaced ⟨outer, construct, .refl, .head listed inside, ?_⟩
          rw [same]
          exact ⟨⟨names, .inl same⟩, .head _⟩

/-! ## Assignments -/

theorem preorder_subset_computed (node : Code.Node) :
    node.preorder ⊆ preorderAll (computed node) := by
  unfold computed
  split
  · exact preorder_subset_preorderAll (.head _)
  next missing =>
    rw [preorder_of_missing (Bool.eq_false_iff.2 missing)]
    exact List.nil_subset _

theorem preorder_subset_store (target : Expr) (node : Code.Node) (names : Names) :
    node.preorder ⊆ preorderAll (unit.store target node names).1 := by
  obtain ⟨nodes, same, stored⟩ := unit.store_cases target node names
  rw [same]
  cases stored with
  | ignored => exact preorder_subset_computed node
  | discarded =>
      rw [preorderAll_append]
      exact List.subset_append_of_subset_left _ (preorder_subset_computed node)
  | bound => exact preorder_subset_assign _ _ node
  | field => exact preorder_subset_assign _ _ node

theorem store_unparen (target : Expr) (node : Code.Node) :
    unit.store target.unparen node = unit.store target node := by
  unfold store
  rw [Expr.unparen_unparen]

/-- A target that is a name has nothing else inside. -/
theorem HasNode.not_ident (hasNode : unit.HasNode inner) {typing : Option Typing} {name : Ident} :
    ¬(Expr.ident typing name).Encloses inner := by
  intro inside
  rw [← inside.eq_of_operands rfl] at hasNode
  cases hasNode.computed

/-- The assignment to a target keeps what is inside the target: it has a path, or an
unsupported construct stands for it. -/
theorem keeps_store (hasNode : unit.HasNode inner) {target : Expr}
    (inside : target.Encloses inner) (node : Code.Node) (names : Names) :
    unit.Keeps target inner (preorderAll (unit.store target node names).1) := by
  obtain ⟨nodes, same, stored⟩ := unit.store_cases target node names
  have stripped := Expr.Encloses.unparen hasNode.computed inside
  rw [same]
  cases stored with
  | ignored named | bound named =>
      rw [named] at stripped
      exact (hasNode.not_ident stripped).elim
  | field selected found =>
      obtain ⟨start, _, _, _, _, _, before, rfl, _⟩ := Scope.fieldRef?_eq_some found
      rw [selected] at stripped
      rcases stripped.cases_head with rfl | ⟨operand, listed, within⟩
      · cases hasNode.computed
      · rw [List.mem_singleton.1 listed] at within
        cases hasNode.computed.symm.trans ((Scope.leads_of_path? before).isPlace within)
  | discarded isInner construct =>
      cases isInner
      have refuses : unit.Refuses target.unparen construct := by
        refine ⟨names, .inr ⟨node, ?_⟩⟩
        rw [store_unparen, same]
      refine .replaced ⟨_, construct, target.encloses_unparen, stripped, refuses, ?_⟩
      rw [preorderAll_append]
      exact List.mem_append_right _ (.head _)

theorem preorder_subset_localVars {id : EntityId}
    (known : (unit.context.package.entity? id).isSome = true) (init : Code.Node) (names : Names) :
    init.preorder ⊆ preorderAll (unit.localVars id init names).1 := by
  rcases unit.localVar_cases id init names with ⟨unknown, _⟩ | ⟨entity, _, same⟩
  · rw [unknown] at known
    cases known
  · have declared : (unit.localVars id init names).1 = [(unit.localVar id init names).1] := rfl
    rw [declared, same]
    exact preorder_subset_localVar _ _ _ init

theorem preorder_subset_assignOne {defines : Bool} {target : Expr}
    (known : unit.Knows (target.introduced? defines).toList) (node : Code.Node) (names : Names) :
    node.preorder ⊆ preorderAll (unit.assignOne defines target node names).1 := by
  rw [Unit.assignOne_eq]
  cases introduced : target.introduced? defines with
  | none => exact preorder_subset_store target node names
  | some id =>
      rw [introduced] at known
      exact preorder_subset_localVars (known id (.head _)) node names

theorem keeps_assignOne (hasNode : unit.HasNode inner) (defines : Bool) {target : Expr}
    (inside : target.Encloses inner) (node : Code.Node) (names : Names) :
    unit.Keeps target inner (preorderAll (unit.assignOne defines target node names).1) := by
  cases target with
  | ident => exact (hasNode.not_ident inside).elim
  | _ => exact keeps_store hasNode inside node names

theorem preorder_subset_declareVar {name : Ident} (known : unit.Knows name.introduced?.toList)
    (hasValues : Bool) (node : Code.Node) (names : Names) :
    node.preorder ⊆ preorderAll (unit.declareVar hasValues name node names).1 := by
  rcases unit.declareVar_cases hasValues name node with
    ⟨id, init, declares, shape, same⟩ | ⟨_, same⟩
  · rw [same]
    rw [declares] at known
    rcases shape with rfl | ⟨missing, _⟩
    · exact preorder_subset_localVars (known id (.head _)) _ names
    · rw [preorder_of_missing missing]
      exact List.nil_subset _
  · rw [same]
    exact preorder_subset_computed node

/-- A value that is taken into a temporary variable is kept there. -/
theorem preorder_subset_temporary (unit : Unit) (source : Expr) (node : Code.Node) (names : Names) :
    node.preorder ⊆ preorderAll (unit.temporary source node names).1.1 := by
  unfold temporary
  split
  · exact preorder_subset_localVar _ _ _ node
  next missing =>
    rw [preorder_of_missing (Bool.eq_false_iff.2 missing)]
    exact List.nil_subset _

/-- Values that match their targets are all there, and no others. -/
theorem values_of_matched (unit : Unit) {right : List Expr} {count : Nat}
    (same : Matched count right.length) (names : Names) :
    (unit.values right count names).1.length = count ∧
      ∀ value ∈ right, (unit.withNames names).expr value ∈ (unit.values right count names).1 := by
  unfold values
  split
  next equal =>
    rw [Unit.mapM_expr]
    exact ⟨by simpa using equal, fun value listed => List.mem_map_of_mem listed⟩
  next differ =>
    obtain ⟨single, some⟩ := same.resolve_left differ
    obtain ⟨value, rfl⟩ := List.length_eq_one_iff.1 single
    refine ⟨?_, ?_⟩
    · simp only [Action.bind_apply, Action.pure_apply, List.length_cons, List.length_replicate]
      omega
    · intro other listed
      rw [List.mem_singleton.1 listed]
      exact .head _

/-! ## Fragments -/

/-- What there is of a fragment among nodes: for an expression, that of what is inside it. -/
def KeepsFragment (unit : Unit) (inner : Expr) (nodes : List Code.Node) : Fragment → Prop
  | .value value => value.Encloses inner → unit.Keeps value inner nodes
  | .unread pos construct => .unsupported pos construct ∈ nodes

/-- All of some fragments are kept by nodes and those below them. -/
def KeepsAll (unit : Unit) (inner : Expr) (fragments : List Fragment) (nodes : List Code.Node) :
    Prop :=
  ∀ fragment ∈ fragments, unit.KeepsFragment inner (preorderAll nodes) fragment

namespace KeepsAll

variable {fragments more : List Fragment}

theorem mono (keeps : unit.KeepsAll inner fragments nodes)
    (within : preorderAll nodes ⊆ preorderAll others) : unit.KeepsAll inner fragments others := by
  intro fragment listed
  cases fragment with
  | value value => exact fun inside => (keeps _ listed inside).mono within
  | unread pos construct => exact within (keeps _ listed)

theorem nil : unit.KeepsAll inner [] nodes :=
  fun _ listed => absurd listed List.not_mem_nil

/-- Nodes that keep some fragments and more keep both. -/
theorem both (one : unit.KeepsAll inner fragments nodes) (two : unit.KeepsAll inner more nodes) :
    unit.KeepsAll inner (fragments ++ more) nodes := by
  intro fragment listed
  rcases List.mem_append.1 listed with listed | listed
  · exact one fragment listed
  · exact two fragment listed

theorem append (one : unit.KeepsAll inner fragments nodes)
    (two : unit.KeepsAll inner more others) :
    unit.KeepsAll inner (fragments ++ more) (nodes ++ others) := by
  refine .both (one.mono ?_) (two.mono ?_)
  · rw [preorderAll_append]
    exact List.subset_append_left _ _
  · rw [preorderAll_append]
    exact List.subset_append_right _ _

theorem block (keeps : unit.KeepsAll inner fragments nodes) (pos : Int) :
    unit.KeepsAll inner fragments [.block pos nodes] := by
  refine keeps.mono ?_
  rw [preorderAll, preorder]
  exact List.subset_append_of_subset_left _ (List.subset_cons_self _ _)

theorem flatten {α : Type} {step : α → Action (List Code.Node)} {items : List α}
    {parts : α → List Fragment}
    (each : ∀ item ∈ items, ∀ names, unit.KeepsAll inner (parts item) (step item names).1)
    (names : Names) :
    unit.KeepsAll inner (items.flatMap parts) (items.mapM step names).1.flatten := by
  intro fragment listed
  obtain ⟨item, member, part⟩ := List.mem_flatMap.1 listed
  obtain ⟨given, within⟩ := exists_subset_flatten step member names
  exact (each item member given).mono within fragment part

/-- Expressions are kept where each of them is. -/
theorem values {values : List Expr}
    (each : ∀ value ∈ values, value.Encloses inner →
      unit.Keeps value inner (preorderAll nodes)) :
    unit.KeepsAll inner (values.map .value) nodes := by
  intro fragment listed
  obtain ⟨value, member, rfl⟩ := List.mem_map.1 listed
  exact each value member

theorem single {value : Expr}
    (keeps : value.Encloses inner → unit.Keeps value inner (preorderAll nodes)) :
    unit.KeepsAll inner [.value value] nodes := by
  intro fragment listed
  rw [List.mem_singleton.1 listed]
  exact keeps

/-- Expressions that are only computed. -/
theorem exprs (hasNode : unit.HasNode inner) (values : List Expr) (names : Names) :
    unit.KeepsAll inner (values.map .value) (values.map (unit.withNames names).expr) :=
  .values fun _ listed inside => (keeps_expr hasNode inside names).mono
    (preorder_subset_preorderAll (List.mem_map_of_mem listed))

end KeepsAll

/-! ## Statements -/

section Statements

variable (hasNode : unit.HasNode inner)

include hasNode

theorem keepsAll_declareSpec {spec : ValueSpec}
    (balanced : spec.values ≠ [] → Matched spec.names.length spec.values.length)
    (known : unit.Knows spec.introduced) (names : Names) :
    unit.KeepsAll inner (spec.values.map .value) (unit.declareSpec spec names).1 := by
  refine .values ?_
  intro value listed inside
  obtain ⟨length, all⟩ := unit.values_of_matched (balanced (List.ne_nil_of_mem listed)) names
  obtain ⟨name, paired⟩ := exists_mem_zip_of_right (Nat.le_of_eq length) (all value listed)
  have declared : unit.Knows name.introduced?.toList := by
    intro id member
    exact known id (List.mem_filterMap.2
      ⟨name, (List.of_mem_zip paired).1, Option.mem_toList.1 member⟩)
  unfold declareSpec
  refine .flatten paired ?_ _
  intro given
  exact (keeps_expr hasNode inside names).mono (preorder_subset_declareVar declared _ _ given)

/-- Every target of an assignment keeps what is inside it. -/
theorem keeps_target (defines : Bool) {left : List Expr} {values : List Code.Node}
    (fits : left.length ≤ values.length) {target : Expr} (listed : target ∈ left)
    (inside : target.Encloses inner) (names : Names) :
    unit.Keeps target inner (preorderAll ((left.zip values).mapM
      (fun pair => unit.assignOne defines pair.1 pair.2) names).1.flatten) := by
  obtain ⟨value, paired⟩ := exists_mem_zip_of_left fits listed
  refine .flatten paired ?_ _
  exact keeps_assignOne hasNode defines inside value

theorem keepsAll_assignAll {defines : Bool} {left right : List Expr}
    (balanced : Matched left.length right.length)
    (known : unit.Knows (introduced defines left)) (names : Names) :
    unit.KeepsAll inner (left.map .value ++ right.map .value)
      (unit.assignAll defines left right names).1 := by
  obtain ⟨length, all⟩ := unit.values_of_matched balanced names
  unfold assignAll
  simp only [Action.bind_apply]
  split
  next parallel =>
    have same : right.length = left.length := by simpa using (Bool.and_eq_true_iff.1 parallel).2
    simp only [Action.bind_apply, Action.pure_apply]
    refine .both (.mono (.values fun target listed inside => ?_)
      (preorderAll_subset (List.subset_append_right _ _)))
      (.mono (.values fun value listed inside => ?_)
      (preorderAll_subset (List.subset_append_left _ _)))
    · refine keeps_target hasNode defines ?_ listed inside _
      simp only [List.length_map, Action.length_mapM, List.length_zip]
      omega
    · obtain ⟨source, paired⟩ := exists_mem_zip_of_right
        (Nat.le_of_eq (length.trans same.symm)) (all value listed)
      obtain ⟨given, among⟩ := Action.exists_mem_mapM
        (fun pair : Expr × Code.Node => unit.temporary pair.1 pair.2) paired
        (unit.values right left.length names).2
      have taken := (keeps_expr hasNode inside names).mono
        (unit.preorder_subset_temporary source _ given)
      refine taken.mono (preorderAll_subset ?_)
      intro node member
      exact List.mem_flatten.2 ⟨_, List.mem_map_of_mem among, member⟩
  next =>
    refine .both (.values fun target listed inside => ?_) (.values fun value listed inside => ?_)
    · exact keeps_target hasNode defines (Nat.le_of_eq length.symm) listed inside _
    · obtain ⟨target, paired⟩ := exists_mem_zip_of_right (Nat.le_of_eq length) (all value listed)
      refine .flatten paired ?_ _
      intro given
      have introduced : unit.Knows (target.introduced? defines).toList := by
        intro id member
        exact known id (List.mem_filterMap.2
          ⟨target, (List.of_mem_zip paired).1, Option.mem_toList.1 member⟩)
      exact (keeps_expr hasNode inside names).mono (preorder_subset_assignOne introduced _ given)

theorem keepsAll_assign {op : String} {opPos : Int} {left right : List Expr}
    (balanced : (Stmt.assign op opPos left right).Balanced)
    (known : unit.Knows (introduced (op = ":=") left)) (names : Names) :
    unit.KeepsAll inner (left.map .value ++ right.map .value)
      (unit.assign op opPos left right names).1 := by
  rw [Stmt.Balanced] at balanced
  unfold assign
  split
  next plain =>
    rw [if_pos (by simpa using plain)] at balanced
    exact keepsAll_assignAll hasNode balanced known names
  next computes =>
    rw [if_neg (by simpa using computes)] at balanced
    obtain ⟨target, rfl⟩ := List.length_eq_one_iff.1 balanced.1
    obtain ⟨value, rfl⟩ := List.length_eq_one_iff.1 balanced.2
    simp only [Action.bind_apply, Unit.mapM_expr]
    -- Both operands are below the operation whose result is stored.
    refine KeepsAll.mono (.exprs hasNode [target, value] names) ?_
    exact List.Subset.trans (List.subset_cons_self _ _)
      (preorder_subset_store target (.operation opPos op _) names)

theorem keepsAll_returned (pos : Int) (values : List Expr) (names : Names) :
    unit.KeepsAll inner (values.map .value) [(unit.returned pos values names).1] := by
  unfold returned
  split
  next none =>
    rw [List.isEmpty_iff.1 none]
    exact .nil
  next =>
    simp only [Action.bind_apply, Action.pure_apply, Unit.mapM_expr]
    refine KeepsAll.mono (.exprs hasNode values names) ?_
    rw [preorderAll, preorder]
    exact List.subset_append_of_subset_left _ (List.subset_cons_self _ _)

theorem keepsAll_rangeElement (defines : Bool) (target : Option Expr) (names : Names) :
    unit.KeepsAll inner (target.toList.map .value) (unit.rangeElement defines target names).1 := by
  cases target with
  | none => exact .nil
  | some target =>
      refine .single fun inside => ?_
      cases target with
      | ident => exact (hasNode.not_ident inside).elim
      | _ => exact keeps_store hasNode inside _ names

theorem keepsAll_clauseHead (subject : Option Expr) (head : ClauseHead) (names : Names) :
    unit.KeepsAll inner head.fragments (unit.clauseHead subject head names).1 := by
  cases head with
  | cases exprs =>
      rw [clauseHead, Unit.mapM_expr]
      exact .exprs hasNode exprs names
  | implicit => exact .nil
  | communication pos =>
      cases pos with
      | none => exact .nil
      | some pos =>
          intro fragment listed
          rw [List.mem_singleton.1 listed]
          exact .head _

/-- A clause that binds the subject of its switch keeps the subject. -/
theorem keeps_binding {subject : Expr} (inside : subject.Encloses inner) {clause : Clause}
    (binding : clause.binding?.isSome = true) (known : unit.Knows (clause.locals true))
    (names : Names) :
    unit.Keeps subject inner (unit.clause (some subject) clause names).1.preorder := by
  obtain ⟨pos, head, body⟩ := clause
  cases head with
  | cases | communication => cases binding
  | implicit entity =>
      obtain ⟨id, rfl⟩ := Option.isSome_iff_exists.1 binding
      have declared := preorder_subset_localVars (known id (.head _))
        ((unit.withNames names).expr subject) names
      rw [Unit.clause]
      refine (keeps_expr hasNode inside names).mono (List.subset_cons_of_subset _ ?_)
      rw [preorderAll_append]
      exact List.subset_append_of_subset_left _ declared

/-- The clauses of a switch that binds its subject keep the subject. -/
theorem keeps_subject {subject : Expr} (inside : subject.Encloses inner) {clauses : List Clause}
    (binds : ∃ clause ∈ clauses, clause.binding?.isSome = true)
    (known : unit.Knows (localsOfClauses true clauses)) (names : Names) :
    unit.Keeps subject inner (preorderAll (unit.clauses (some subject) clauses names).1) := by
  induction clauses generalizing names with
  | nil => simp at binds
  | cons first rest ih =>
      obtain ⟨here, later⟩ := unit.knows_append.1 known
      rw [Unit.clauses]
      simp only [Action.bind_apply, Action.pure_apply]
      rw [preorderAll]
      obtain ⟨clause, listed, binding⟩ := binds
      rcases List.mem_cons.1 listed with rfl | listed
      · exact (keeps_binding hasNode inside binding here names).mono (List.subset_append_left _ _)
      · exact (ih ⟨clause, listed, binding⟩ later _).mono (List.subset_append_right _ _)

end Statements

theorem keepsAll_unread (pos : Int) (construct : String) :
    unit.KeepsAll inner [.unread pos construct] [.unsupported pos construct] := by
  intro fragment listed
  rw [List.mem_singleton.1 listed]
  exact .head _

mutual

/-- A statement keeps its fragments. -/
theorem keepsAll_stmt (hasNode : unit.HasNode inner) : (stmt : Stmt) → stmt.Balanced →
    unit.Knows stmt.locals → (names : Names) →
    unit.KeepsAll inner stmt.fragments (unit.stmt stmt names).1
  | .empty, _, _, names => .nil
  | .send pos, _, _, names => keepsAll_unread pos "channel send"
  | .bad pos, _, _, names => keepsAll_unread pos "statement"
  | .block pos list, balanced, known, names => by
      rw [Unit.stmt, Stmt.fragments]
      exact (keepsAll_stmts hasNode list balanced known names).block pos
  | .expr value, _, _, names => by
      rw [Unit.stmt, Stmt.fragments]
      exact .exprs hasNode [value] names
  | .vars specs, balanced, known, names => by
      rw [Unit.stmt, Stmt.fragments]
      refine .flatten (fun spec listed names => ?_) names
      refine keepsAll_declareSpec hasNode (balanced spec listed) ?_ names
      exact fun id member => known id (List.mem_flatMap.2 ⟨spec, listed, member⟩)
  | .assign op opPos left right, balanced, known, names => by
      rw [Unit.stmt, Stmt.fragments]
      exact keepsAll_assign hasNode balanced known names
  | .incDec op opPos target, _, _, names => by
      rw [Unit.stmt, Stmt.fragments]
      refine KeepsAll.mono (.exprs hasNode [target] names) ?_
      exact List.Subset.trans (List.subset_cons_self _ _)
        (preorder_subset_store target (.operation opPos op _) names)
  | .ret pos values, _, _, names => by
      rw [Unit.stmt, Stmt.fragments]
      exact keepsAll_returned hasNode pos values names
  | .cond pos init test bodyPos body otherwise, balanced, known, names => by
      rw [Unit.stmt, Stmt.fragments]
      obtain ⟨⟨before, inside⟩, after⟩ := (unit.knows_append.1 known).imp_left unit.knows_append.1
      have first := keepsAll_stmt hasNode init balanced.1 before names
      have tested := KeepsAll.exprs hasNode [test] (unit.stmt init names).2
      have inner := (keepsAll_stmts hasNode body balanced.2.1 inside
        (unit.stmt init names).2).block bodyPos
      have other := keepsAll_stmt hasNode otherwise balanced.2.2 after
        (unit.stmts body (unit.stmt init names).2).2
      exact ((first.append (tested.append inner)).append other).block pos
  | .loop pos init test post bodyPos body, balanced, known, names => by
      rw [Unit.stmt, Stmt.fragments]
      obtain ⟨⟨before, inside⟩, after⟩ := (unit.knows_append.1 known).imp_left unit.knows_append.1
      have first := keepsAll_stmt hasNode init balanced.1 before names
      have tested := KeepsAll.exprs hasNode test.toList (unit.stmt init names).2
      have inner := (keepsAll_stmts hasNode body balanced.2.1 inside
        (unit.stmt init names).2).block bodyPos
      have last := keepsAll_stmt hasNode post balanced.2.2 after
        (unit.stmts body (unit.stmt init names).2).2
      simp only [Action.bind_apply, Action.pure_apply, Unit.mapM_expr]
      exact (((first.append tested).append inner).append last).block pos
  | .range pos defines key value collection bodyPos body, balanced, known, names => by
      rw [Unit.stmt, Stmt.fragments]
      have first := KeepsAll.exprs hasNode [collection] names
      have keys := keepsAll_rangeElement hasNode defines key names
      have values := keepsAll_rangeElement hasNode defines value
        (unit.rangeElement defines key names).2
      have inner := (keepsAll_stmts hasNode body balanced (unit.knows_append.1 known).2
        (unit.rangeElement defines value (unit.rangeElement defines key names).2).2).block bodyPos
      exact (((first.append keys).append values).append inner).block pos
  | .switch pos init tag clauseList, balanced, known, names => by
      rw [Unit.stmt, Stmt.fragments]
      obtain ⟨before, inside⟩ := unit.knows_append.1 known
      have first := keepsAll_stmt hasNode init balanced.1 before names
      have tagged := KeepsAll.exprs hasNode tag.toList (unit.stmt init names).2
      have blocks := keepsAll_clauses hasNode none clauseList balanced.2 inside
        (unit.stmt init names).2
      simp only [Action.bind_apply, Action.pure_apply, Unit.mapM_expr]
      exact ((first.append tagged).append blocks).block pos
  | .typeSwitch pos init binds subject clauseList, balanced, known, names => by
      rw [Unit.stmt, Stmt.fragments]
      obtain ⟨before, inside⟩ := unit.knows_append.1 known
      have first := keepsAll_stmt hasNode init balanced.1 before names
      simp only [Action.bind_apply]
      cases binds with
      | true =>
          -- The subject is computed anew in every clause that binds it.
          have blocks := keepsAll_clauses hasNode (some subject) clauseList balanced.2.2 inside
            (unit.stmt init names).2
          have tested : unit.KeepsAll inner [.value subject]
              (unit.clauses (some subject) clauseList (unit.stmt init names).2).1 :=
            .single fun within => keeps_subject hasNode within (balanced.2.1 rfl) inside _
          have kept := (first.append (tested.both blocks)).block pos
          rw [← List.append_nil (unit.stmt init names).1] at kept
          rw [List.append_assoc]
          exact kept
      | false =>
          have blocks := keepsAll_clauses hasNode none clauseList balanced.2.2 inside
            (unit.stmt init names).2
          have tested := KeepsAll.exprs hasNode [subject] (unit.stmt init names).2
          exact ((first.append tested).append blocks).block pos
  | .select pos clauseList, balanced, known, names => by
      rw [Unit.stmt, Stmt.fragments]
      exact (keepsAll_clauses hasNode none clauseList balanced known names).block pos
  | .labeled inner, balanced, known, names => by
      rw [Unit.stmt, Stmt.fragments]
      exact keepsAll_stmt hasNode inner balanced known names
  termination_by structural stmt => stmt

theorem keepsAll_stmts (hasNode : unit.HasNode inner) : (stmts : List Stmt) →
    StmtsBalanced stmts → unit.Knows (localsAll stmts) → (names : Names) →
    unit.KeepsAll inner (fragmentsAll stmts) (unit.stmts stmts names).1
  | [], _, _, names => .nil
  | first :: rest, balanced, known, names => by
      rw [Unit.stmts, fragmentsAll]
      obtain ⟨here, later⟩ := unit.knows_append.1 known
      exact (keepsAll_stmt hasNode first balanced.1 here names).append
        (keepsAll_stmts hasNode rest balanced.2 later _)
  termination_by structural stmts => stmts

theorem keepsAll_clause (hasNode : unit.HasNode inner) (subject : Option Expr) :
    (clause : Clause) → clause.Balanced → unit.Knows (clause.locals subject.isSome) →
    (names : Names) →
    unit.KeepsAll inner clause.fragments [(unit.clause subject clause names).1]
  | .mk pos head body, balanced, known, names => by
      rw [Unit.clause, Clause.fragments]
      exact ((keepsAll_clauseHead hasNode subject head names).append
        (keepsAll_stmts hasNode body balanced (unit.knows_append.1 known).2 _)).block pos
  termination_by structural clause => clause

theorem keepsAll_clauses (hasNode : unit.HasNode inner) (subject : Option Expr) :
    (clauses : List Clause) → ClausesBalanced clauses →
    unit.Knows (localsOfClauses subject.isSome clauses) → (names : Names) →
    unit.KeepsAll inner (fragmentsOfClauses clauses) (unit.clauses subject clauses names).1
  | [], _, _, names => .nil
  | first :: rest, balanced, known, names => by
      rw [Unit.clauses, fragmentsOfClauses]
      obtain ⟨here, later⟩ := unit.knows_append.1 known
      exact (keepsAll_clause hasNode subject first balanced.1 here names).append
        (keepsAll_clauses hasNode subject rest balanced.2 later _)
  termination_by structural clauses => clauses

end

end Unit

end Custody.Lowering
