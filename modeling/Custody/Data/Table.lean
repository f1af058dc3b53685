/-!
# Tables in key order

A table maps keys to values and keeps its entries in strictly ascending key
order.  The order is part of the type, so two tables that answer every look-up
alike are equal, and listing a table is already listing it sorted.

The key type brings its own order.  It has to be a lawful total order for the
operations below: `Std.TransOrd` and `Std.LawfulEqOrd`.
-/

namespace Custody

universe u v w

/-- A finite map with its entries in strictly ascending key order. -/
structure Table (κ : Type u) (α : Type v) [Ord κ] where
  entries : List (κ × α)
  ascending : entries.Pairwise fun left right => compare left.1 right.1 = .lt

namespace Table

variable {κ : Type u} {α : Type v} {β : Type w} [Ord κ]

instance [DecidableEq κ] [DecidableEq α] : DecidableEq (Table κ α) :=
  fun left right =>
    if equal : left.entries = right.entries then
      .isTrue (by cases left; cases right; cases equal; rfl)
    else
      .isFalse fun same => equal (congrArg entries same)

/-- The table without entries. -/
def empty : Table κ α := ⟨[], .nil⟩

instance : EmptyCollection (Table κ α) := ⟨empty⟩

instance : Inhabited (Table κ α) := ⟨∅⟩

/-- The number of entries. -/
def size (table : Table κ α) : Nat := table.entries.length

/-- No entry at all. -/
def isEmpty (table : Table κ α) : Bool := table.entries.isEmpty

/-- The keys in ascending order. -/
def keys (table : Table κ α) : List κ := table.entries.map (·.1)

/-- The values in ascending order of their keys. -/
def values (table : Table κ α) : List α := table.entries.map (·.2)

/-- The first value of an entry list under a key. -/
def search (key : κ) : List (κ × α) → Option α
  | [] => none
  | (other, value) :: rest =>
      if compare key other = .eq then some value else search key rest

/-- The value under a key. -/
def find? (table : Table κ α) (key : κ) : Option α := search key table.entries

@[simp] theorem find?_empty {key : κ} : (∅ : Table κ α).find? key = none := rfl

/-- Is there an entry under the key? -/
def contains (table : Table κ α) (key : κ) : Bool := (table.find? key).isSome

/-- Drop the entry under a key. -/
def erase (table : Table κ α) (key : κ) : Table κ α :=
  ⟨table.entries.filter fun entry => compare key entry.1 != .eq,
    table.ascending.filter _⟩

/-- Keep the entries that pass a test. -/
def filter (table : Table κ α) (keep : κ → α → Bool) : Table κ α :=
  ⟨table.entries.filter fun entry => keep entry.1 entry.2, table.ascending.filter _⟩

/-- Change every value. -/
def map (table : Table κ α) (change : κ → α → β) : Table κ β :=
  ⟨table.entries.map fun entry => (entry.1, change entry.1 entry.2),
    List.pairwise_map.2 table.ascending⟩

/-- Change the value under a key; nothing happens where there is none. -/
def modify (table : Table κ α) (key : κ) (change : α → α) : Table κ α :=
  table.map fun other value => if compare key other = .eq then change value else value

/-- Put an entry at its place in an ascending entry list, over an older entry
of the same key. -/
def put (key : κ) (value : α) : List (κ × α) → List (κ × α)
  | [] => [(key, value)]
  | (other, kept) :: rest =>
      match compare key other with
      | .lt => (key, value) :: (other, kept) :: rest
      | .eq => (key, value) :: rest
      | .gt => (other, kept) :: put key value rest

theorem mem_put {key : κ} {value : α} {list : List (κ × α)} {entry : κ × α}
    (member : entry ∈ put key value list) : entry = (key, value) ∨ entry ∈ list := by
  induction list with
  | nil => simpa [put] using member
  | cons head rest ih =>
      obtain ⟨other, kept⟩ := head
      unfold put at member
      split at member <;> simp only [List.mem_cons] at member ⊢
      · rcases member with found | found | found <;> simp [found]
      · rcases member with found | found <;> simp [found]
      · rcases member with found | found
        · simp [found]
        · rcases ih found with found | found <;> simp [found]

section Ordered

variable [Std.TransOrd κ] [Std.LawfulEqOrd κ]

theorem ascending_put (key : κ) (value : α) {list : List (κ × α)}
    (ascending : list.Pairwise fun left right => compare left.1 right.1 = .lt) :
    (put key value list).Pairwise fun left right => compare left.1 right.1 = .lt := by
  induction list with
  | nil => simp [put]
  | cons head rest ih =>
      obtain ⟨other, kept⟩ := head
      obtain ⟨first, tail⟩ := List.pairwise_cons.1 ascending
      unfold put
      split
      next less =>
        refine List.pairwise_cons.2 ⟨fun entry member => ?_, ascending⟩
        rcases List.mem_cons.1 member with rfl | member
        · exact less
        · exact Std.TransCmp.lt_trans less (first entry member)
      next equal =>
        cases Std.LawfulEqCmp.eq_of_compare equal
        exact List.pairwise_cons.2 ⟨first, tail⟩
      next greater =>
        refine List.pairwise_cons.2 ⟨fun entry member => ?_, ih tail⟩
        rcases mem_put member with rfl | member
        · exact Std.OrientedCmp.lt_of_gt greater
        · exact first entry member

/-- Set the value under a key. -/
def insert (table : Table κ α) (key : κ) (value : α) : Table κ α :=
  ⟨put key value table.entries, ascending_put key value table.ascending⟩

/-- The table of an entry list; of two entries with the same key the later one
counts. -/
def ofList (list : List (κ × α)) : Table κ α :=
  list.foldl (fun table entry => table.insert entry.1 entry.2) ∅

/-- All entries of both tables; the second table wins. -/
def union (left right : Table κ α) : Table κ α :=
  right.entries.foldl (fun table entry => table.insert entry.1 entry.2) left

end Ordered

/-- Entries can be dropped in either order. -/
theorem erase_comm (table : Table κ α) (key other : κ) :
    (table.erase key).erase other = (table.erase other).erase key := by
  simp only [erase, List.filter_filter, Bool.and_comm]

section Lookup

variable {key other : κ} {value : α} {table : Table κ α} [Std.LawfulEqOrd κ]

theorem search_put [Std.TransOrd κ] (list : List (κ × α)) :
    search other (put key value list) =
      if compare other key = .eq then some value else search other list := by
  induction list with
  | nil => simp [put, search]
  | cons head rest ih =>
      obtain ⟨name, kept⟩ := head
      unfold put
      split
      next less => rfl
      next equal =>
        cases Std.LawfulEqCmp.eq_of_compare equal
        simp only [search]
        split <;> rfl
      next greater =>
        simp only [search, ih]
        by_cases here : compare other name = .eq
        · cases Std.LawfulEqCmp.eq_of_compare here
          simp [Std.OrientedCmp.lt_of_gt greater]
        · simp [here]

theorem find?_insert [Std.TransOrd κ] :
    (table.insert key value).find? other =
      if compare other key = .eq then some value else table.find? other :=
  search_put table.entries

@[simp] theorem find?_insert_self [Std.TransOrd κ] : (table.insert key value).find? key = some value := by
  simp [find?_insert]

theorem find?_insert_of_ne [Std.TransOrd κ] (different : other ≠ key) :
    (table.insert key value).find? other = table.find? other := by
  simp [find?_insert, different]

theorem search_filter (list : List (κ × α)) :
    search other (list.filter fun entry => compare key entry.1 != .eq) =
      if compare key other = .eq then none else search other list := by
  induction list with
  | nil => simp [search]
  | cons head rest ih =>
      obtain ⟨name, kept⟩ := head
      by_cases here : compare key name = .eq
      · cases Std.LawfulEqCmp.eq_of_compare here
        simp only [List.filter_cons, here, bne_self_eq_false, Bool.false_eq_true, ↓reduceIte, ih,
          search]
        by_cases same : compare key other = .eq
        · simp [same]
        · have swapped : compare other key ≠ .eq := fun equal =>
            same (by cases Std.LawfulEqCmp.eq_of_compare equal; simp)
          simp [same, swapped]
      · simp only [List.filter_cons, bne_iff_ne, ne_eq, here, not_false_eq_true, ↓reduceIte, search,
          ih]
        by_cases same : compare other name = .eq
        · cases Std.LawfulEqCmp.eq_of_compare same
          simp [here]
        · simp [same]

theorem find?_erase :
    (table.erase key).find? other = if compare key other = .eq then none else table.find? other :=
  search_filter table.entries

@[simp] theorem find?_erase_self : (table.erase key).find? key = none := by
  simp [find?_erase]

theorem find?_erase_of_ne (different : other ≠ key) :
    (table.erase key).find? other = table.find? other := by
  simp [find?_erase, different.symm]

theorem search_map (change : κ → α → β) (list : List (κ × α)) :
    search key (list.map fun entry => (entry.1, change entry.1 entry.2)) =
      (search key list).map (change key) := by
  induction list with
  | nil => rfl
  | cons head rest ih =>
      obtain ⟨name, kept⟩ := head
      simp only [List.map_cons, search, ih]
      split
      next here => cases Std.LawfulEqCmp.eq_of_compare here; rfl
      next => rfl

@[simp] theorem find?_map (change : κ → α → β) :
    (table.map change).find? key = (table.find? key).map (change key) :=
  search_map change table.entries

theorem find?_modify (change : α → α) :
    (table.modify key change).find? other =
      if compare key other = .eq then (table.find? other).map change else table.find? other := by
  rw [modify, find?_map]
  split
  next here => rfl
  next => cases table.find? other <;> rfl

end Lookup

section Extensionality

variable [Std.LawfulEqOrd κ]

theorem search_eq_some_iff {key : κ} {value : α} {list : List (κ × α)}
    (ascending : list.Pairwise fun left right => compare left.1 right.1 = .lt) :
    search key list = some value ↔ (key, value) ∈ list := by
  induction list with
  | nil => simp [search]
  | cons head rest ih =>
      obtain ⟨name, kept⟩ := head
      obtain ⟨first, tail⟩ := List.pairwise_cons.1 ascending
      unfold search
      split
      next here =>
        cases Std.LawfulEqCmp.eq_of_compare here
        have absent : (key, value) ∉ rest := fun member => by
          have less := first _ member
          simp at less
        simp [absent, eq_comm]
      next apart =>
        have different : key ≠ name := fun equal => apart (by simp [equal])
        simp [ih tail, different]

/-- Look-up finds exactly the entries. -/
theorem find?_eq_some_iff {table : Table κ α} {key : κ} {value : α} :
    table.find? key = some value ↔ (key, value) ∈ table.entries :=
  search_eq_some_iff table.ascending

theorem mem_keys_iff {table : Table κ α} {key : κ} :
    key ∈ table.keys ↔ table.contains key = true := by
  simp only [keys, List.mem_map, contains, Option.isSome_iff_exists, find?_eq_some_iff]
  constructor
  · rintro ⟨⟨name, kept⟩, member, rfl⟩
    exact ⟨kept, member⟩
  · rintro ⟨kept, member⟩
    exact ⟨(key, kept), member, rfl⟩

/-- Every key is listed once. -/
theorem nodup_keys (table : Table κ α) : table.keys.Nodup := by
  refine List.pairwise_map.2 (table.ascending.imp fun {left right} less equal => ?_)
  rw [equal] at less
  simp at less

/-- A change of the value under a key is a change of one entry. -/
theorem entries_modify {table : Table κ α} {key : κ} {value : α}
    (found : table.find? key = some value) (change : α → α) :
    ∃ (index : Nat) (inside : index < table.entries.length),
      table.entries[index] = (key, value) ∧ (table.modify key change).entries =
        table.entries.modify index fun entry => (entry.1, change entry.2) := by
  obtain ⟨index, inside, here⟩ := List.getElem_of_mem (find?_eq_some_iff.1 found)
  refine ⟨index, inside, here, List.ext_getElem (by simp [modify, map]) ?_⟩
  intro other within _
  have within : other < table.entries.length := by simpa [modify, map] using within
  simp only [modify, map, List.getElem_map, List.getElem_modify]
  by_cases same : index = other
  · subst same
    simp [here]
  · rw [if_neg same, if_neg]
    intro equal
    have first : index < table.keys.length := by simpa [keys] using inside
    have second : other < table.keys.length := by simpa [keys] using within
    have twice : table.keys[index] = table.keys[other] := by
      simp only [keys, List.getElem_map, here]
      exact Std.LawfulEqCmp.eq_of_compare equal
    exact same ((List.getElem_inj table.nodup_keys).1 twice)

theorem entries_eq_of_mem_iff [Std.TransOrd κ] {left right : List (κ × α)}
    (leftAscending : left.Pairwise fun a b => compare a.1 b.1 = .lt)
    (rightAscending : right.Pairwise fun a b => compare a.1 b.1 = .lt)
    (agree : ∀ entry, entry ∈ left ↔ entry ∈ right) : left = right := by
  induction left generalizing right with
  | nil =>
      cases right with
      | nil => rfl
      | cons head rest => exact absurd ((agree head).2 (.head _)) (by simp)
  | cons head rest ih =>
      cases right with
      | nil => exact absurd ((agree head).1 (.head _)) (by simp)
      | cons other others =>
          obtain ⟨first, tail⟩ := List.pairwise_cons.1 leftAscending
          obtain ⟨start, remainder⟩ := List.pairwise_cons.1 rightAscending
          have same : head = other := by
            rcases List.mem_cons.1 ((agree head).1 (.head _)) with equal | member
            · exact equal
            · rcases List.mem_cons.1 ((agree other).2 (.head _)) with equal | found
              · exact equal.symm
              · have forth := start _ member
                have back := first _ found
                have loop := Std.TransCmp.lt_trans forth back
                simp at loop
          subst same
          congr 1
          refine ih tail remainder fun entry => ⟨fun member => ?_, fun member => ?_⟩
          · rcases List.mem_cons.1 ((agree entry).1 (.tail _ member)) with equal | found
            · have less := first _ member
              simp [equal] at less
            · exact found
          · rcases List.mem_cons.1 ((agree entry).2 (.tail _ member)) with equal | found
            · have less := start _ member
              simp [equal] at less
            · exact found

/-- Tables that answer every look-up alike are equal. -/
theorem ext [Std.TransOrd κ] {left right : Table κ α} (agree : ∀ key, left.find? key = right.find? key) :
    left = right := by
  have equal : left.entries = right.entries :=
    entries_eq_of_mem_iff left.ascending right.ascending fun ⟨key, value⟩ => by
      rw [← find?_eq_some_iff, ← find?_eq_some_iff, agree]
  cases left
  cases right
  cases equal
  rfl

end Extensionality

end Table

/-- A finite set of keys in ascending order. -/
abbrev KeySet (κ : Type u) [Ord κ] : Type u := Table κ Unit

namespace KeySet

variable {κ : Type u} [Ord κ]

/-- The members in ascending order. -/
def toList (set : KeySet κ) : List κ := set.keys

/-- The least member. -/
def least? (set : KeySet κ) : Option κ := set.keys.head?

variable [Std.TransOrd κ] [Std.LawfulEqOrd κ]

/-- The set with one more member. -/
def add (set : KeySet κ) (key : κ) : KeySet κ := set.insert key ()

theorem contains_add {set : KeySet κ} {key other : κ} :
    (set.add key).contains other = true ↔ other = key ∨ set.contains other = true := by
  by_cases same : other = key <;> simp [add, Table.contains, Table.find?_insert, same]

end KeySet

end Custody
