import Custody.Data.Table
import Mathlib.Data.List.Forall2
import Mathlib.Data.List.Induction
import Mathlib.Data.List.Nodup

/-!
# Occurrences

How often a value occurs in the lists and tables that a change of one entry
leaves behind, and which entries of a list its table has.
-/

namespace Custody

/-- Changing one member of a list exchanges its image in the flattened list. -/
theorem count_flatMap_modify {α β : Type} [BEq β] (image : α → List β) (change : α → α)
    (list : List α) (index : Nat) (inside : index < list.length) (value : β) :
    ((list.modify index change).flatMap image).count value + (image list[index]).count value =
      (list.flatMap image).count value + (image (change list[index])).count value := by
  induction list generalizing index with
  | nil => exact absurd inside (Nat.not_lt_zero _)
  | cons first rest ih =>
      cases index with
      | zero =>
          simp only [List.modify_zero_cons, List.flatMap_cons, List.count_append,
            List.getElem_cons_zero]
          omega
      | succ index =>
          have step := ih index (Nat.lt_of_succ_lt_succ inside)
          simp only [List.modify_succ_cons, List.flatMap_cons, List.count_append,
            List.getElem_cons_succ]
          omega

namespace Table

universe u

variable {κ : Type u} {α : Type} [Ord κ]

theorem count_put [BEq α] {key : κ} {value : α} {list : List (κ × α)} (free : search key list = none)
    (other : α) :
    ((put key value list).map (·.2)).count other =
      [value].count other + (list.map (·.2)).count other := by
  induction list with
  | nil => simp [put]
  | cons head rest ih =>
      obtain ⟨name, kept⟩ := head
      unfold search at free
      split at free
      · cases free
      next apart =>
        unfold put
        split
        next less => simp only [List.map_cons, List.count_cons, List.count_nil]; omega
        next equal => exact absurd equal apart
        next greater =>
          have step := ih free
          simp only [List.map_cons, List.count_cons, List.count_nil] at step ⊢
          omega

/-- A new entry adds its value. -/
theorem count_values_insert [BEq α] [Std.TransOrd κ] [Std.LawfulEqOrd κ] {table : Table κ α} {key : κ}
    {value : α} (free : table.find? key = none) (other : α) :
    (table.insert key value).values.count other =
      [value].count other + table.values.count other :=
  count_put free other

/-- Where there is no entry, dropping it changes nothing. -/
theorem filter_eq_self_of_search [Std.LawfulEqOrd κ] {key : κ} {list : List (κ × α)}
    (free : search key list = none) :
    (list.filter fun entry => compare key entry.1 != .eq) = list := by
  induction list with
  | nil => rfl
  | cons head rest ih =>
      obtain ⟨name, kept⟩ := head
      unfold search at free
      split at free
      · cases free
      next apart => simp [apart, ih free]

theorem search_eq_none_of_lt [Std.LawfulEqOrd κ] {key : κ} {list : List (κ × α)}
    (above : ∀ entry ∈ list, compare key entry.1 = .lt) : search key list = none := by
  induction list with
  | nil => rfl
  | cons head rest ih =>
      obtain ⟨name, kept⟩ := head
      have first := above _ (.head _)
      unfold search
      split
      next here => rw [here] at first; cases first
      next => exact ih fun entry member => above entry (.tail _ member)

theorem count_filter [BEq α] [Std.LawfulEqOrd κ] {key : κ} {value : α} {list : List (κ × α)}
    (ascending : list.Pairwise fun left right => compare left.1 right.1 = .lt)
    (found : search key list = some value) (other : α) :
    (list.map (·.2)).count other =
      [value].count other +
        ((list.filter fun entry => compare key entry.1 != .eq).map (·.2)).count other := by
  induction list with
  | nil => cases found
  | cons head rest ih =>
      obtain ⟨name, kept⟩ := head
      obtain ⟨first, tail⟩ := List.pairwise_cons.1 ascending
      unfold search at found
      split at found
      next here =>
        cases found
        cases Std.LawfulEqCmp.eq_of_compare here
        have rest_kept := filter_eq_self_of_search (search_eq_none_of_lt first)
        simp only [List.filter_cons, here, bne_self_eq_false, Bool.false_eq_true, ↓reduceIte,
          rest_kept, List.map_cons, List.count_cons, List.count_nil]
        omega
      next apart =>
        have step := ih tail found
        simp only [List.filter_cons, bne_iff_ne, ne_eq, apart, not_false_eq_true, ↓reduceIte,
          List.map_cons, List.count_cons, List.count_nil] at step ⊢
        omega

/-- Dropping an entry takes its value away. -/
theorem count_values_erase [BEq α] [Std.LawfulEqOrd κ] {table : Table κ α} {key : κ} {value : α}
    (found : table.find? key = some value) (other : α) :
    table.values.count other = [value].count other + (table.erase key).values.count other :=
  count_filter table.ascending found other

section Listing

variable [Std.TransOrd κ] [Std.LawfulEqOrd κ]

theorem mem_of_find?_ofList {list : List (κ × α)} {key : κ} {value : α}
    (found : (ofList list).find? key = some value) : (key, value) ∈ list := by
  induction list using List.reverseRecOn with
  | nil => cases found
  | append_singleton init last ih =>
      simp only [ofList, List.foldl_append, List.foldl_cons, List.foldl_nil] at found ih
      rw [find?_insert] at found
      split at found
      next here =>
        cases Std.LawfulEqCmp.eq_of_compare here
        cases found
        exact List.mem_append_right _ (List.mem_singleton.2 rfl)
      next => exact List.mem_append_left _ (ih found)

theorem isSome_find?_ofList {list : List (κ × α)} {key : κ} :
    ((ofList list).find? key).isSome = true ↔ key ∈ list.map (·.1) := by
  induction list using List.reverseRecOn with
  | nil => simp [ofList]
  | append_singleton init last ih =>
      simp only [ofList, List.foldl_append, List.foldl_cons, List.foldl_nil] at ih ⊢
      rw [find?_insert, List.map_append, List.mem_append]
      split
      next here =>
        cases Std.LawfulEqCmp.eq_of_compare here
        simp
      next apart =>
        rw [ih]
        have different : key ≠ last.1 := by
          rintro rfl
          simp at apart
        simp [different]

/-- Where every key is listed once, the table has all entries of the list. -/
theorem find?_ofList_iff {list : List (κ × α)} (distinct : (list.map (·.1)).Nodup) {key : κ}
    {value : α} : (ofList list).find? key = some value ↔ (key, value) ∈ list := by
  constructor
  · exact mem_of_find?_ofList
  · intro member
    have listed : key ∈ list.map (·.1) := List.mem_map.2 ⟨_, member, rfl⟩
    obtain ⟨other, found⟩ := Option.isSome_iff_exists.1 (isSome_find?_ofList.2 listed)
    have also := mem_of_find?_ofList found
    have same : (key, other) = (key, value) :=
      List.inj_on_of_nodup_map distinct also member rfl
    rw [found, (Prod.mk.inj same).2]

/-- The tables of two lists with the same keys have values that are related as those of
the lists are. -/
theorem rel_find?_ofList {related : α → α → Prop} {list others : List (κ × α)}
    (alike : List.Forall₂ (fun left right => right.1 = left.1 ∧ related left.2 right.2) list others)
    (key : κ) :
    Option.Rel related ((ofList list).find? key) ((ofList others).find? key) := by
  suffices inserted : ∀ table across : Table κ α,
      Option.Rel related (table.find? key) (across.find? key) →
      Option.Rel related
        ((list.foldl (fun table entry => table.insert entry.1 entry.2) table).find? key)
        ((others.foldl (fun table entry => table.insert entry.1 entry.2) across).find? key) from
    inserted ∅ ∅ .none
  induction alike with
  | nil => exact fun _ _ start => start
  | cons first _ ih =>
      intro table across start
      refine ih _ _ ?_
      dsimp only
      rw [first.1, find?_insert, find?_insert]
      split
      · exact .some first.2
      · exact start

end Listing

end Table

end Custody
