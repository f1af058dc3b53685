import Mathlib.Data.List.Nodup
import Mathlib.Data.List.Forall2

/-!
# Lists in parts

A list whose elements are labelled falls into parts, one for each label.  Put together
again, the parts are a permutation of the list that keeps the order within each part.
-/

namespace Custody

variable {α β κ : Type}

/-- A list in strict order is determined by its members. -/
theorem eq_of_ascending [Ord κ] [Std.TransOrd κ] {key : α → κ} {left right : List α}
    (first : left.Pairwise fun one other => compare (key one) (key other) = .lt)
    (second : right.Pairwise fun one other => compare (key one) (key other) = .lt)
    (same : ∀ one, one ∈ left ↔ one ∈ right) : left = right := by
  have nodup : ∀ list : List α,
      list.Pairwise (fun one other => compare (key one) (key other) = .lt) → list.Nodup := by
    refine fun list ascending => ascending.imp fun {one other} less => ?_
    rintro rfl
    have equal : compare (key one) (key one) = .eq := Std.ReflCmp.compare_self
    rw [equal] at less
    cases less
  have perm := (List.perm_ext_iff_of_nodup (nodup left first) (nodup right second)).2 same
  refine perm.eq_of_pairwise (fun one other _ _ below above => ?_) first second
  rw [Std.OrientedCmp.gt_of_lt below] at above
  cases above

theorem flatMap_eq_of_forall₂ {γ : Type} {left : List α} {right : List β} {view : α → List γ}
    {other : β → List γ} (each : List.Forall₂ (fun one two => view one = other two) left right) :
    left.flatMap view = right.flatMap other := by
  induction each with
  | nil => rfl
  | cons here _ ih => rw [List.flatMap_cons, List.flatMap_cons, here, ih]

variable [DecidableEq β] {key : α → β} {labels : List β}

/-- Every element is in one of the parts. -/
theorem perm_flatMap_filter (distinct : labels.Nodup) (list : List α)
    (covered : ∀ one ∈ list, key one ∈ labels) :
    (labels.flatMap fun label => list.filter (key · = label)).Perm list := by
  induction labels generalizing list with
  | nil =>
      cases list with
      | nil => exact .nil
      | cons one rest => exact (List.not_mem_nil (covered one (.head _))).elim
  | cons label rest ih =>
      obtain ⟨fresh, distinct⟩ := List.nodup_cons.1 distinct
      have later := ih distinct (list.filter fun one => !decide (key one = label))
        fun one member => by
          obtain ⟨listed, apart⟩ := List.mem_filter.1 member
          exact (List.mem_cons.1 (covered one listed)).resolve_left (by simpa using apart)
      have parts : (rest.flatMap fun other =>
          (list.filter fun one => !decide (key one = label)).filter (key · = other)) =
            rest.flatMap fun other => list.filter (key · = other) := by
        refine List.flatMap_congr fun other member => ?_
        rw [List.filter_filter]
        refine List.filter_congr fun one _ => ?_
        by_cases here : key one = other
        · have apart : other ≠ label := by
            rintro rfl
            exact fresh member
          simp [here, apart]
        · simp [here]
      rw [parts] at later
      exact (later.append_left _).trans (List.filter_append_perm _ list)

/-- The parts are put together part by part. -/
theorem filter_flatMap_filter (distinct : labels.Nodup) (list : List α) {label : β}
    (member : label ∈ labels) :
    (labels.flatMap fun other => list.filter (key · = other)).filter (key · = label) =
      list.filter (key · = label) := by
  have inner : ∀ other, (list.filter (key · = other)).filter (key · = label) =
      if other = label then list.filter (key · = label) else [] := by
    intro other
    rw [List.filter_filter]
    split
    next same =>
      subst same
      simp
    next apart =>
      refine List.filter_eq_nil_iff.2 fun one _ both => ?_
      simp only [Bool.and_eq_true, decide_eq_true_eq] at both
      exact apart (both.2.symm.trans both.1)
  rw [List.filter_flatMap]
  simp only [inner]
  induction labels with
  | nil => cases member
  | cons first rest ih =>
      obtain ⟨fresh, distinct⟩ := List.nodup_cons.1 distinct
      rw [List.flatMap_cons]
      by_cases here : first = label
      · subst here
        have others : (rest.flatMap fun other =>
            if other = first then list.filter (key · = first) else []) = [] := by
          refine List.flatMap_eq_nil_iff.2 fun other listed => if_neg ?_
          rintro rfl
          exact fresh listed
        rw [if_pos rfl, others, List.append_nil]
      · rw [if_neg here, List.nil_append]
        exact ih distinct ((List.mem_cons.1 member).resolve_left (Ne.symm here))

end Custody
