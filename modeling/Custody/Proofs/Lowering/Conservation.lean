import Custody.Proofs.Code.Resolution
import Custody.Proofs.Lowering.Routes
import Custody.Proofs.Source.Enclosure

/-!
# What lowered expressions keep

The node of an expression has the nodes of its operands below it, or the expression as a
whole is kept as an unsupported construct.  Selections and calls are no exceptions: what is
selected from and what is called has a path, and then nothing in it is computed.

Some operands are left out.  Constants are literals, and the arguments of `new` and `make` and
the keys of composites are passed over.
-/

namespace Custody

namespace Code.Node

theorem mem_preorder_self {node : Node} (present : node.isPresent = true) :
    node ∈ node.preorder := by
  cases node with
  | absent | vacant => cases present
  | _ => exact .head _

theorem preorder_of_missing {node : Node} (missing : node.isPresent = false) :
    node.preorder = [] := by
  cases node with
  | absent | vacant => rfl
  | _ => cases missing

theorem preorder_subset_assign (pos : Int) (target : Option Reference) (value : Node) :
    value.preorder ⊆ preorderAll [.assign pos target value] := by
  have below : Inside [] (.assign pos target value) [] value := .value
  exact List.Subset.trans below.preorder_subset (preorder_subset_preorderAll (.head _))

theorem preorder_subset_localVar (pos : Int) (type name : String) (init : Node) :
    init.preorder ⊆ preorderAll [.localVar pos type [(name, init)]] := by
  have below : Inside [] (.localVar pos type [(name, init)]) [] init := .initial (.head _)
  exact List.Subset.trans below.preorder_subset (preorder_subset_preorderAll (.head _))

end Code.Node

namespace Lowering

open Source

namespace Scope

variable {scope : Scope} {outer operand inner : Expr}

/-- Nothing in an expression that has a path is computed. -/
theorem Leads.isPlace {path : String} (leads : scope.Leads outer path)
    (inside : outer.Encloses inner) : inner.isPlace = true := by
  induction leads with
  | start _ =>
      rw [← inside.eq_of_operands rfl]
      rfl
  | paren _ ih | star _ ih | field _ _ ih =>
      rcases inside.cases_head with rfl | ⟨operand, listed, inside⟩
      · rfl
      · rw [List.mem_singleton.1 listed] at inside
        exact ih inside

/-- Nothing in something that is called by its path is computed. -/
theorem isPlace_of_callee {function : Expr} (reached : (scope.callee function).HasPath)
    (inside : function.Encloses inner) : inner.isPlace = true := by
  fun_induction Scope.callee scope function with
  | case1 _ _ _ ih =>
      rcases inside.cases_head with rfl | ⟨operand, listed, inside⟩
      · rfl
      · rw [List.mem_singleton.1 listed] at inside
        exact ih reached inside
  | case2 =>
      rw [← inside.eq_of_operands rfl]
      rfl
  | case3 _ _ base _ _ _ selection =>
      rcases inside.cases_head with rfl | ⟨operand, listed, within⟩
      · rfl
      · cases selection with
        | none => cases listed
        | some selection =>
            obtain ⟨path, found⟩ := Option.isSome_iff_exists.1 (reached rfl)
            cases List.mem_singleton.1 listed
            exact (leads_of_path? found).isPlace within
  | case4 => exact reached.elim

theorem typing?_callee (scope : Scope) (function : Expr) :
    (scope.callee function).typing? = function.unparen.typing? := by
  fun_induction Scope.callee scope function with
  | case1 _ _ _ ih => exact ih
  | case2 | case3 => rfl
  | case4 function notParen =>
      cases function with
      | paren pos typing inner => exact (notParen pos typing inner rfl).elim
      | _ => rfl

/-- What is called by its name is a name in parentheses. -/
theorem unparen_of_callee {function : Expr} {typing : Option Typing} {name : Ident}
    (named : scope.callee function = .name typing name) :
    function.unparen = .ident typing name := by
  fun_induction Scope.callee scope function with
  | case1 _ _ _ ih => exact ih named
  | case2 =>
      cases named
      rfl
  | case3 | case4 => cases named

theorem constant?_eq_none {value : Expr} (varies : value.isConstant = false) :
    constant? value = none := by
  unfold Expr.isConstant at varies
  unfold constant?
  cases known : value.typing? with
  | none => rfl
  | some typing =>
      obtain ⟨mode, type, constant⟩ := typing
      rw [known] at varies
      cases constant with
      | some _ => simp at varies
      | none =>
          cases mode with
          | nil => simp at varies
          | _ => rfl

theorem expr_mem_exprs (scope : Scope) {values : List Expr} {value : Expr}
    (listed : value ∈ values) : scope.expr value ∈ scope.exprs values := by
  induction listed with
  | head rest =>
      rw [Scope.exprs]
      exact .head _
  | tail first _ ih =>
      rw [Scope.exprs]
      exact .tail _ ih

/-- The value of every element is among the arguments of a composite. -/
theorem exists_mem_arguments (scope : Scope) (fields : Option (List StructField))
    {elements : List Expr} {element : Expr} (listed : element ∈ elements) (index : Nat) :
    ∃ arg ∈ scope.arguments fields index elements, arg.2 = scope.expr element.element := by
  induction listed generalizing index with
  | head rest =>
      rw [Scope.arguments.eq_def]
      refine ⟨_, .head _, ?_⟩
      cases element with
      | _ => rfl
  | tail first _ ih =>
      rw [Scope.arguments.eq_def]
      obtain ⟨arg, listed, same⟩ := ih (index + 1)
      exact ⟨arg, .tail _ listed, same⟩

/-- A call that is looked into keeps its arguments, and what is called is not computed. -/
theorem call_operand {pos : Int} {type : Option Ty} {function : Expr} {typing : Option Typing}
    {args : List Expr} (listed : operand ∈ (Expr.call pos typing function args).operands)
    (inside : operand.Encloses inner) (computed : inner.isPlace = false)
    (passes : (Expr.call pos typing function args).allocates = false) {node : Code.Node}
    (called : scope.Called pos type (scope.callee function) (scope.exprs args) node) :
    (scope.expr operand).preorder ⊆ node.preorder ∨
      ∃ construct, node = .unsupported pos construct := by
  have argument (reached : (scope.callee function).HasPath) : operand ∈ args := by
    simp only [Expr.operands] at listed
    split at listed
    · exact listed
    · rcases List.mem_cons.1 listed with rfl | listed
      · cases computed.symm.trans (isPlace_of_callee reached inside)
      · exact listed
  have element (reached : (scope.callee function).HasPath) :
      ("", scope.expr operand) ∈ (scope.exprs args).map (("" : String), ·) :=
    List.mem_map_of_mem (scope.expr_mem_exprs (argument reached))
  cases called with
  | converted single conversion =>
      rw [typing?_callee] at conversion
      rw [Expr.operands, Expr.calledMode?, if_pos conversion] at listed
      have only := scope.expr_mem_exprs listed
      rw [single, List.mem_singleton] at only
      rw [only]
      exact .inl (List.Subset.refl _)
  | unsupported construct => exact .inr ⟨construct, rfl⟩
  | operation op reached =>
      exact .inl (List.subset_cons_of_subset _
        (Code.Node.preorder_subset_preorderAll (scope.expr_mem_exprs (argument reached))))
  | allocated named isBuiltin makes =>
      rw [Expr.allocates, unparen_of_callee named] at passes
      rcases makes with makes | makes
      · simp [isBuiltin, makes] at passes
      · simp [isBuiltin, makes] at passes
  | appended reached | constructed _ _ reached =>
      exact .inl (List.subset_cons_of_subset _
        (Code.Node.preorder_subset_preorderNamed (element reached)))
  | method selected =>
      have reached : (scope.callee function).HasPath := by
        rw [selected]
        exact fun _ => rfl
      exact .inl (List.subset_cons_of_subset _
        (Code.Node.preorder_subset_preorderAll (scope.expr_mem_exprs (argument reached))))

/-- The nodes of an operand with something computed in it are among those of the expression,
or the expression is unsupported, unless the operand is left out. -/
theorem expr_operand (listed : operand ∈ outer.operands) (kept : operand ∉ outer.leftOut)
    (inside : operand.Encloses inner) (computed : inner.isPlace = false) :
    (scope.expr operand).preorder ⊆ (scope.expr outer).preorder ∨
      ∃ construct, scope.expr outer = .unsupported outer.pos construct := by
  obtain ⟨varies, passes, unkeyed⟩ := Expr.varies_of_kept listed kept
  rw [Scope.expr.eq_def scope outer, constant?_eq_none varies]
  cases outer with
  | missing | ident | basicLit | plain => cases listed
  | paren _ _ within | star _ _ within | typeAssert _ _ within =>
      rw [List.mem_singleton.1 listed]
      exact .inl (List.Subset.refl _)
  | unary pos _ op within =>
      rw [List.mem_singleton.1 listed]
      dsimp only
      split
      · exact .inl (List.Subset.refl _)
      · split
        · exact .inr ⟨_, rfl⟩
        · exact .inl (List.subset_cons_of_subset _
            (Code.Node.preorder_subset_preorderAll (.head _)))
  | binary pos _ op left right =>
      have member : scope.expr operand ∈ [scope.expr left, scope.expr right] :=
        List.mem_map_of_mem (show operand ∈ [left, right] from listed)
      exact .inl (List.subset_cons_of_subset _ (Code.Node.preorder_subset_preorderAll member))
  | selector pos _ base _ namePos _ selection =>
      dsimp only
      unfold Scope.selected
      split
      · exact .inr ⟨_, rfl⟩
      · split
        next reference found =>
          obtain ⟨start, _, _, _, _, _, before, rfl, _⟩ := fieldRef?_eq_some found
          rw [List.mem_singleton.1 listed] at inside
          cases computed.symm.trans ((leads_of_path? before).isPlace inside)
        · exact .inr ⟨_, rfl⟩
  | composite pos typing elements =>
      obtain ⟨element, among, part⟩ := List.mem_flatMap.1 listed
      rcases List.mem_append.1 part with key | value
      · exact absurd (List.mem_flatMap.2 ⟨element, among, key⟩) unkeyed
      cases List.mem_singleton.1 value
      obtain ⟨arg, member, same⟩ := scope.exists_mem_arguments
        ((scope.context.classOf? (typing.bind (·.type))).map (·.fields)) among 0
      rw [← same]
      exact .inl (List.subset_cons_of_subset _ (Code.Node.preorder_subset_preorderNamed member))
  | keyValue => exact .inr ⟨_, rfl⟩
  | call pos typing function args =>
      exact call_operand listed inside computed passes (scope.called_call pos _ _ _)

end Scope

end Lowering

end Custody
