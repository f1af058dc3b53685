import Custody.Proofs.Data.Ending
import Custody.Proofs.Eval.Steps

/-!
# Coupled steps

Two steps are coupled if, started in frames that agree, they end alike: where
the left one succeeds the right one succeeds with the same result, in frames that
agree again.  Of a failure on the left it is known what it leaves behind and,
where both sides go together, that the right side fails too.

The rules below follow the way steps are put together.  The steps that touch the
objects of a frame get names of their own here, so that a coupling has to speak
about these alone.
-/

namespace Custody.Eval

open Code

/-- How two steps may end together. -/
structure Fate where
  /-- What a failure on the left leaves behind. -/
  Lost : Frame → Prop
  /-- Does the right side fail where the left one does? -/
  together : Prop

/-- Two outcomes fit together. -/
def Fate.Meets {α : Type} (fate : Fate) (after : α → Frame → Frame → Prop)
    (left right : EStateM.Result Failure Frame α) : Prop :=
  match left with
  | .ok result frame => ∃ other, right = .ok result other ∧ after result frame other
  | .error _ frame => fate.Lost frame ∧ (fate.together → ∃ failure other, right = .error failure other)

theorem Fate.Meets.map {α β : Type} {fate : Fate} {after : α → Frame → Frame → Prop}
    {last : β → Frame → Frame → Prop} {left right : Step α} {frame other : Frame} {change : α → β}
    (meets : fate.Meets after (left frame) (right other))
    (mapped : ∀ result frame other, after result frame other → last (change result) frame other) :
    fate.Meets last ((change <$> left) frame) ((change <$> right) other) := by
  simp only [Functor.map, EStateM.map]
  cases done : left frame with
  | ok result next =>
      rw [done] at meets
      obtain ⟨across, reached, agree⟩ := meets
      rw [reached]
      exact ⟨across, rfl, mapped result next across agree⟩
  | error failure next =>
      rw [done] at meets
      refine ⟨meets.1, fun together => ?_⟩
      obtain ⟨reason, across, failed⟩ := meets.2 together
      rw [failed]
      exact ⟨reason, across, rfl⟩

/-- Two steps end alike in frames that agree. -/
def Coupled {α : Type} (fate : Fate) (before : Frame → Frame → Prop)
    (after : α → Frame → Frame → Prop) (left right : Step α) : Prop :=
  ∀ frame other, before frame other → fate.Meets after (left frame) (right other)

namespace Coupled

variable {α β : Type} {fate : Fate} {before : Frame → Frame → Prop}
variable {after : α → Frame → Frame → Prop} {left right : Step α}

theorem pure {result : α} (holds : ∀ frame other, before frame other → after result frame other) :
    Coupled fate before after (Pure.pure result) (Pure.pure result) :=
  fun frame other agree => ⟨other, rfl, holds frame other agree⟩

theorem throw {failure : Failure} (lost : ∀ frame other, before frame other → fate.Lost frame) :
    Coupled fate before after (MonadExcept.throw failure) (MonadExcept.throw failure) :=
  fun frame other agree => ⟨lost frame other agree, fun _ => ⟨failure, other, rfl⟩⟩

theorem bind {last : β → Frame → Frame → Prop} {leftNext rightNext : α → Step β}
    (first : Coupled fate before after left right)
    (next : ∀ result, Coupled fate (after result) last (leftNext result) (rightNext result)) :
    Coupled fate before last (left >>= leftNext) (right >>= rightNext) := by
  intro frame other agree
  have start := first frame other agree
  cases done : left frame with
  | ok result middle =>
      rw [done] at start
      obtain ⟨across, reached, agree⟩ := start
      rw [bind_of_ok done, bind_of_ok reached]
      exact next result middle across agree
  | error failure middle =>
      rw [done] at start
      rw [bind_of_error done]
      refine ⟨start.1, fun together => ?_⟩
      obtain ⟨reason, across, failed⟩ := start.2 together
      exact ⟨reason, across, bind_of_error failed⟩

theorem map {last : β → Frame → Frame → Prop} {change : α → β}
    (first : Coupled fate before after left right)
    (mapped : ∀ result frame other, after result frame other → last (change result) frame other) :
    Coupled fate before last (change <$> left) (change <$> right) :=
  fun frame other agree => (first frame other agree).map mapped

theorem weaken {start : Frame → Frame → Prop} {last : α → Frame → Frame → Prop}
    (coupled : Coupled fate before after left right)
    (enter : ∀ frame other, start frame other → before frame other)
    (leave : ∀ result frame other, after result frame other → last result frame other) :
    Coupled fate start last left right := by
  intro frame other agree
  have ends := coupled frame other (enter frame other agree)
  unfold Fate.Meets at ends ⊢
  split
  next result frame done =>
    rw [done] at ends
    obtain ⟨across, reached, agree⟩ := ends
    exact ⟨across, reached, leave _ _ _ agree⟩
  next failure frame done =>
    rw [done] at ends
    exact ends

/-- A fact that does not depend on the frames may be used. -/
theorem assuming {fact : Prop} (coupled : fact → Coupled fate before after left right) :
    Coupled fate (fun frame other => before frame other ∧ fact) after left right :=
  fun frame other agree => coupled agree.2 frame other agree.1

theorem start {first : Frame → Frame → Prop} (coupled : Coupled fate before after left right)
    (enter : ∀ frame other, first frame other → before frame other) :
    Coupled fate first after left right :=
  coupled.weaken enter fun _ _ _ agree => agree

/-- A step that looks at the frame first is coupled if what it goes on with is. -/
theorem get {leftNext rightNext : Frame → Step α}
    (next : ∀ frame other, before frame other →
      fate.Meets after (leftNext frame frame) (rightNext other other)) :
    Coupled fate before after (MonadState.get >>= leftNext) (MonadState.get >>= rightNext) :=
  fun frame other agree => next frame other agree

theorem modify {leftChange rightChange : Frame → Frame} {last : Unit → Frame → Frame → Prop}
    (holds : ∀ frame other, before frame other → last () (leftChange frame) (rightChange other)) :
    Coupled fate before last (modify leftChange : Step Unit) (modify rightChange : Step Unit) :=
  fun frame other agree => ⟨rightChange other, rfl, holds frame other agree⟩

theorem fail {cause : Cause} (lost : ∀ frame other, before frame other → fate.Lost frame) :
    Coupled fate before after (Step.fail cause) (Step.fail cause) :=
  throw lost

theorem ofRegistry {answer : Except Registry.Error α}
    (lost : ∀ frame other, before frame other → fate.Lost frame) :
    Coupled fate before (fun result frame other => before frame other ∧ answer = .ok result)
      (Step.ofRegistry answer) (Step.ofRegistry answer) := by
  cases answer with
  | ok result => exact pure fun _ _ agree => ⟨agree, rfl⟩
  | error error => exact fail lost

/-- Putting failures into other words changes nothing about the frames. -/
theorem reword (coupled : Coupled fate before after left right) (explain : Failure → Failure) :
    Coupled fate before after (Step.reword explain left) (Step.reword explain right) := by
  intro frame other agree
  have ends := coupled frame other agree
  unfold Step.reword
  cases done : left frame with
  | ok result middle =>
      rw [done] at ends
      obtain ⟨across, reached, agree⟩ := ends
      rw [reached]
      exact ⟨across, rfl, agree⟩
  | error failure middle =>
      rw [done] at ends
      refine ⟨ends.1, fun together => ?_⟩
      obtain ⟨reason, across, failed⟩ := ends.2 together
      rw [failed]
      exact ⟨explain reason, across, rfl⟩

theorem locate {pos : Int} {kind : Kind} (coupled : Coupled fate before after left right) :
    Coupled fate before after (Step.locate pos kind left) (Step.locate pos kind right) :=
  coupled.reword (.locate pos kind)

end Coupled

end Custody.Eval
