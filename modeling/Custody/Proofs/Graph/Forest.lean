import Custody.Proofs.Graph.Connectivity

/-!
# Forests of units

Connected units can be kept in trees.  Each unit has a parent, the root of a tree is its
own parent, and an edge between two trees hangs the greater root under the lesser one.
Looking for a root shortens the way to it.

No unit has a greater parent.  So every way leads to a root, and the root is the least
unit of its tree: a forest names the same units as labels do.
-/

namespace Custody.Graph

/-- The parents of units, none of them greater than the unit. -/
structure Forest where
  parents : Table UnitId UnitId
  below : ∀ unit parent, parents.find? unit = some parent → (compare parent unit).isLE = true

namespace Forest

variable {forest : Forest} {unit parent other : UnitId}

/-- How many units with a parent are not greater than a unit. -/
def rank (forest : Forest) (unit : UnitId) : Nat :=
  (forest.parents.keys.filter fun key => (compare key unit).isLE).length

/-- A parent that is another unit is further down. -/
theorem rank_lt (found : forest.parents.find? unit = some parent) (apart : parent ≠ unit) :
    forest.rank parent < forest.rank unit := by
  have less := forest.below unit parent found
  have higher : (compare unit parent).isLE = false := by
    rw [← Bool.not_eq_true]
    intro back
    exact apart (Std.LawfulEqCmp.eq_of_compare (Std.OrientedCmp.isLE_antisymm less back))
  have listed : unit ∈ forest.parents.keys.filter fun key => (compare key unit).isLE := by
    rw [List.mem_filter, Table.mem_keys_iff, Table.contains, found]
    exact ⟨rfl, by simp⟩
  have fewer : (forest.parents.keys.filter fun key => (compare key parent).isLE) =
      (forest.parents.keys.filter fun key => (compare key unit).isLE).filter
        fun key => (compare key parent).isLE := by
    rw [List.filter_filter]
    refine List.filter_congr fun key _ => ?_
    cases here : (compare key parent).isLE with
    | false => simp
    | true => simp [Std.TransCmp.isLE_trans here less]
  unfold rank
  rw [fewer]
  exact List.length_filter_lt_length_iff_exists.2 ⟨unit, listed, by simp [higher]⟩

/-- The root of the tree of a unit. -/
def root (forest : Forest) (unit : UnitId) : UnitId :=
  match found : forest.parents.find? unit with
  | none => unit
  | some parent =>
      if apart : parent = unit then unit
      else
        have := rank_lt found apart
        forest.root parent
  termination_by forest.rank unit

theorem root_eq (forest : Forest) (unit : UnitId) :
    forest.root unit =
      match forest.parents.find? unit with
      | none => unit
      | some parent => if parent = unit then unit else forest.root parent := by
  rw [root]
  split <;> simp_all

/-- Give a unit another parent. -/
def hang (forest : Forest) (unit parent : UnitId) (less : (compare parent unit).isLE = true) :
    Forest where
  parents := forest.parents.insert unit parent
  below other above found := by
    rw [Table.find?_insert] at found
    split at found
    next here =>
      cases Std.LawfulEqCmp.eq_of_compare here
      cases found
      exact less
    next => exact forest.below other above found

/-- Look for the root of a unit, and hang every unit on the way under it. -/
def find (forest : Forest) (unit : UnitId) :
    { found : UnitId × Forest // (compare found.1 unit).isLE = true } :=
  match found : forest.parents.find? unit with
  | none => ⟨(unit, forest), by simp⟩
  | some parent =>
      if apart : parent = unit then ⟨(unit, forest), by simp⟩
      else
        have := rank_lt found apart
        let rest := forest.find parent
        have less := Std.TransCmp.isLE_trans rest.2 (forest.below unit parent found)
        ⟨(rest.1.1, rest.1.2.hang unit rest.1.1 less), less⟩
  termination_by forest.rank unit

/-- Connect two units: the greater of their roots is hung under the lesser. -/
def union (forest : Forest) (left right : UnitId) : Forest :=
  let first := forest.find left
  let second := first.1.2.find right
  if first.1.1 = second.1.1 then second.1.2
  else if less : (compare second.1.1 first.1.1).isLT = true then
    second.1.2.hang first.1.1 second.1.1 (isLE_of_isLT less)
  else
    second.1.2.hang second.1.1 first.1.1 (isLE_of_not_isLT less)

/-- Every unit of a graph is a tree of its own. -/
def singletons (graph : Graph) : Forest where
  parents := graph.nodes.map fun unit _ => unit
  below unit parent found := by
    rw [Table.find?_map] at found
    obtain ⟨_, _, rfl⟩ := Option.map_eq_some_iff.1 found
    simp

/-! ## Roots -/

/-- Where a way ends nothing is left to follow. -/
theorem find?_root (forest : Forest) (unit : UnitId) :
    forest.parents.find? (forest.root unit) = none ∨
      forest.parents.find? (forest.root unit) = some (forest.root unit) := by
  fun_induction root forest unit with
  | case1 unit found => exact .inl found
  | case2 unit own => exact .inr own
  | case3 unit parent found apart _ ih => exact ih

theorem root_of_end (ends : forest.parents.find? unit = none ∨
    forest.parents.find? unit = some unit) : forest.root unit = unit := by
  rw [root_eq]
  rcases ends with absent | own
  · rw [absent]
  · simp [own]

theorem root_root (forest : Forest) (unit : UnitId) :
    forest.root (forest.root unit) = forest.root unit :=
  root_of_end (forest.find?_root unit)

theorem root_of_parent (found : forest.parents.find? unit = some parent) :
    forest.root unit = forest.root parent := by
  rw [root_eq, found]
  dsimp only
  split
  next same => rw [same, root_of_end (.inr (same ▸ found))]
  next => rfl

/-- A root is hung under another root, or a unit under its own root: the units that had
the one as their root have the other now. -/
theorem root_hang {less : (compare parent unit).isLE = true} (above : forest.root parent = parent)
    (either : forest.root unit = unit ∨ forest.root unit = parent) (other : UnitId) :
    (forest.hang unit parent less).root other =
      if forest.root other = forest.root unit then parent else forest.root other := by
  have found : ∀ other, (forest.hang unit parent less).parents.find? other =
      if other = unit then some parent else forest.parents.find? other := by
    intro other
    simp only [hang, Table.find?_insert, Std.LawfulEqCmp.compare_eq_iff_eq]
  have top : (forest.hang unit parent less).root parent = parent := by
    refine root_of_end ?_
    rw [found]
    split
    next => exact .inr rfl
    next => exact above ▸ forest.find?_root parent
  induction rank : forest.rank other using Nat.strongRecOn generalizing other with
  | _ size ih =>
      subst rank
      by_cases here : other = unit
      · subst here
        rw [root_of_parent ((found other).trans (if_pos rfl)), top, if_pos rfl]
      · have still := (found other).trans (if_neg here)
        by_cases ends : forest.parents.find? other = none ∨
            forest.parents.find? other = some other
        · rw [root_of_end ends, root_of_end (still ▸ ends)]
          split
          next same =>
            rcases either with own | root
            · exact (here (same.trans own)).elim
            · exact same.trans root
          next => rfl
        · obtain ⟨next, follows⟩ := Option.ne_none_iff_exists'.1 fun absent => ends (.inl absent)
          have apart : next ≠ other := by
            rintro rfl
            exact ends (.inr follows)
          rw [root_of_parent follows, root_of_parent (still.trans follows)]
          exact ih _ (rank_lt follows apart) next rfl

/-- Looking for a root finds it, and moves no unit to another tree. -/
theorem find_spec (forest : Forest) (unit : UnitId) :
    (forest.find unit).1.1 = forest.root unit ∧
      (forest.find unit).1.2.root = forest.root := by
  induction rank : forest.rank unit using Nat.strongRecOn generalizing unit with
  | _ size ih =>
      subst rank
      unfold find
      split
      next absent => exact ⟨(root_of_end (.inl absent)).symm, rfl⟩
      next parent found =>
        split
        next same => exact ⟨(root_of_end (.inr (same ▸ found))).symm, rfl⟩
        next apart =>
          obtain ⟨finds, keeps⟩ := ih _ (rank_lt found apart) parent rfl
          refine ⟨finds.trans (root_of_parent found).symm, funext fun other => ?_⟩
          have own : (forest.find parent).1.2.root unit = (forest.find parent).1.1 := by
            rw [keeps, finds, root_of_parent found]
          have above : (forest.find parent).1.2.root (forest.find parent).1.1 =
              (forest.find parent).1.1 := by
            rw [keeps, finds, root_root]
          rw [root_hang above (.inr own), own, keeps]
          split
          next same => exact same.symm
          next => rfl

/-- Connecting two units replaces the greater of their roots by the lesser. -/
theorem links_union (forest : Forest) (edge : UnitId × UnitId) :
    Links forest.root edge (forest.union edge.1 edge.2).root := by
  obtain ⟨first, keeps⟩ := forest.find_spec edge.1
  obtain ⟨second, still⟩ := (forest.find edge.1).1.2.find_spec edge.2
  rw [keeps] at second still
  unfold union
  dsimp only
  split
  next same =>
    refine ⟨_, _, .inl ⟨rfl, rfl⟩, ?_, fun unit => ?_⟩
    · rw [first, second] at same
      simp [same]
    · rw [still]
      split
      next here => rw [here, ← first, same, second]
      next => rfl
  next apart =>
    split
    next less =>
      rw [first, second] at less
      refine ⟨_, _, .inr ⟨rfl, rfl⟩, isLE_of_isLT less, fun unit => ?_⟩
      rw [root_hang, still, first, second, root_root]
      · rw [still, second, root_root]
      · rw [still, first, root_root]
        exact .inl rfl
    next less =>
      rw [first, second] at less
      refine ⟨_, _, .inl ⟨rfl, rfl⟩, isLE_of_not_isLT less, fun unit => ?_⟩
      rw [root_hang, still, first, second, root_root]
      · rw [still, first, root_root]
      · rw [still, second, root_root]
        exact .inl rfl

/-- The forest of a graph, with its edges taken in the given order. -/
def along (graph : Graph) (edges : List (UnitId × UnitId)) : Forest :=
  edges.foldl (fun forest edge => forest.union edge.1 edge.2) (.singletons graph)

/-- The root of a unit is the least unit that the edges connect it with. -/
theorem represents_along (graph : Graph) (edges : List (UnitId × UnitId)) :
    Represents edges (along graph edges).root := by
  have alone : (singletons graph).root = id := by
    funext unit
    refine root_of_end ?_
    simp only [singletons, Table.find?_map]
    cases graph.nodes.find? unit with
    | none => exact .inl rfl
    | some node => exact .inr rfl
  have start : Represents [] (singletons graph).root := alone ▸ .nil
  exact (Represents.foldl (fun _ => True) root
    (fun forest edge _ => ⟨trivial, forest.links_union edge⟩) trivial start edges).2

/-- In whatever order the edges are taken, the roots are the labels. -/
theorem root_along {graph : Graph} {edges : List (UnitId × UnitId)}
    (order : edges.Perm graph.edges) : (along graph edges).root = graph.labels.of :=
  (represents_along graph edges).unique graph.represents_labels fun _ => order.mem_iff

end Forest

end Custody.Graph
