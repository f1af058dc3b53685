/-!
# Sums of weights

Measures of progress add up the weights of all elements of a list.  A step that changes one
element moves the sum by as much as it moves the weight of that element.
-/

namespace Custody

theorem foldr_add_modify {α : Type} (weight : α → Nat) (change : α → α) (list : List α)
    (index : Nat) (inside : index < list.length) :
    (list.modify index change).foldr (weight · + ·) 0 + weight list[index] =
      list.foldr (weight · + ·) 0 + weight (change list[index]) := by
  induction list generalizing index with
  | nil => exact absurd inside (Nat.not_lt_zero _)
  | cons first rest ih =>
      cases index with
      | zero =>
          simp only [List.modify_zero_cons, List.foldr_cons, List.getElem_cons_zero]
          omega
      | succ index =>
          have step := ih index (Nat.lt_of_succ_lt_succ inside)
          simp only [List.modify_succ_cons, List.foldr_cons, List.getElem_cons_succ]
          omega

end Custody
