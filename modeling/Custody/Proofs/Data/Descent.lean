import Mathlib.Data.Fintype.Card
import Mathlib.Data.Set.Finite.Basic
import Mathlib.Logic.Relation

/-!
# Descent and cycles

From a point that sees finitely many others, a relation can be followed for ever
only around a cycle.  So the points from which every path comes to an end are those
that lead to no cycle.
-/

namespace Custody

open Relation

variable {α : Type} {relation : α → α → Prop} {start : α}

/-- Following a relation leads to a point that leads back to itself. -/
def LeadsToCycle (relation : α → α → Prop) (start : α) : Prop :=
  ∃ point, ReflTransGen relation start point ∧ TransGen relation point point

/-- A point that leads to a cycle has a successor that does. -/
theorem LeadsToCycle.exists_next (leads : LeadsToCycle relation start) :
    ∃ next, relation start next ∧ LeadsToCycle relation next := by
  obtain ⟨point, path, cycle⟩ := leads
  obtain ⟨next, first, rest⟩ := TransGen.head'_iff.1 (TransGen.trans_right path cycle)
  exact ⟨next, first, point, rest, cycle⟩

theorem not_leadsToCycle_of_acc (ends : Acc (Function.swap relation) start) :
    ¬LeadsToCycle relation start := by
  induction ends with
  | intro point _ ih =>
      intro leads
      obtain ⟨next, first, later⟩ := leads.exists_next
      exact ih next first later

/-- Among finitely many points, paths that meet no cycle come to an end. -/
theorem acc_of_not_leadsToCycle (finite : {point | ReflTransGen relation start point}.Finite)
    (apart : ¬LeadsToCycle relation start) : Acc (Function.swap relation) start := by
  let Seen := {point // ReflTransGen relation start point}
  let below (left right : Seen) : Prop := TransGen relation right.1 left.1
  have : Finite Seen := finite
  have : IsTrans Seen below := ⟨fun _ _ _ left right => right.trans left⟩
  have : Std.Irrefl below := ⟨fun point cycle => apart ⟨point.1, point.2, cycle⟩⟩
  have founded : WellFounded below := Finite.wellFounded_of_trans_of_irrefl below
  have every : ∀ point : Seen, Acc (Function.swap relation) point.1 := by
    intro point
    induction point using founded.induction with
    | _ point ih =>
        exact ⟨_, fun next first => ih ⟨next, point.2.tail first⟩ (.single first)⟩
  exact every ⟨start, .refl⟩

theorem leadsToCycle_iff_not_acc (finite : {point | ReflTransGen relation start point}.Finite) :
    LeadsToCycle relation start ↔ ¬Acc (Function.swap relation) start := by
  constructor
  · exact fun leads ends => not_leadsToCycle_of_acc ends leads
  · exact fun endless => Classical.byContradiction fun apart =>
      endless (acc_of_not_leadsToCycle finite apart)

end Custody
