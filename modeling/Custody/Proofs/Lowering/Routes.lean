import Custody.Proofs.Code.Paths
import Custody.Proofs.Lowering.Tracking

/-!
# Paths of expressions

A path starts at a variable and goes on through fields that are selected, promoted
ones included.  Dereferences leave no mark on it.
-/

namespace Custody.Lowering

open Source

namespace Scope

variable {scope : Scope}

/-- The reference to a field names the fields that lead to it. -/
theorem fieldRef?_eq_some {base : Option String} {namePos : Int} {selection : Option Selection}
    {reference : Code.Reference} (found : scope.fieldRef? base namePos selection = some reference) :
    ∃ start receiver entity indices names last, base = some start ∧
      selection = some ⟨.field, receiver, entity, indices⟩ ∧
      scope.context.fieldPath? receiver indices = some (names ++ [last]) ∧
      reference = ⟨namePos, ".".intercalate (start :: names), last⟩ := by
  unfold fieldRef? at found
  split at found
  next start receiver entity indices =>
    split at found
    next path chosen =>
      obtain ⟨last, isLast, rfl⟩ := Option.map_eq_some_iff.1 found
      refine ⟨start, receiver, entity, indices, path.dropLast, last, rfl, rfl, ?_, rfl⟩
      rw [chosen, List.dropLast_append_getLast? last isLast]
    next => cases found
  next => cases found

/-- Where the path of an expression comes from. -/
inductive Leads (scope : Scope) : Expr → String → Prop where
  | start {typing : Option Typing} {name : Ident} {path : String}
      (named : scope.nameOf? name.entity? = some path) : Leads scope (.ident typing name) path
  | paren {pos : Int} {typing : Option Typing} {inner : Expr} {path : String}
      (inside : Leads scope inner path) : Leads scope (.paren pos typing inner) path
  | star {pos : Int} {typing : Option Typing} {inner : Expr} {path : String}
      (inside : Leads scope inner path) : Leads scope (.star pos typing inner) path
  | field {pos namePos : Int} {typing : Option Typing} {base : Expr} {name start last : String}
      {used entity : Option EntityId} {receiver : Option Ty} {indices : List Nat}
      {names : List String} (before : Leads scope base start)
      (chosen : scope.context.fieldPath? receiver indices = some (names ++ [last])) :
      Leads scope
        (.selector pos typing base name namePos used (some ⟨.field, receiver, entity, indices⟩))
        (Code.dotted (".".intercalate (start :: names)) last)

theorem leads_of_path? {value : Expr} {path : String} (found : scope.path? value = some path) :
    scope.Leads value path := by
  fun_induction Scope.path? scope value generalizing path with
  | case1 _ _ inner ih => exact .paren (ih found)
  | case2 _ _ inner ih => exact .star (ih found)
  | case3 _ name => exact .start found
  | case4 _ _ base _ namePos _ selection ih =>
      obtain ⟨reference, referred, rfl⟩ := Option.map_eq_some_iff.1 found
      obtain ⟨start, receiver, entity, indices, names, last, before, rfl, chosen, rfl⟩ :=
        fieldRef?_eq_some referred
      exact .field (ih before) chosen
  | case5 => cases found

/-- What is called by a selection is a selection in parentheses. -/
theorem callee_eq_selected {function : Expr} {typing : Option Typing} {used : Option EntityId}
    {selection : Option Selection} {base : Option String}
    (same : scope.callee function = .selected typing used selection base) :
    ∃ pos inner name namePos,
      function.unparen = .selector pos typing inner name namePos used selection ∧
        scope.path? inner = base := by
  fun_induction Scope.callee scope function with
  | case1 _ _ inner ih => exact ih same
  | case2 => cases same
  | case3 pos typing inner name namePos used selection =>
      cases same
      exact ⟨pos, inner, name, namePos, rfl, rfl⟩
  | case4 => cases same

end Scope

end Custody.Lowering
