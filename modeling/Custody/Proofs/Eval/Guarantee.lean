import Custody.Proofs.Data.Ending
import Custody.Proofs.Eval.Steps

/-!
# Guarantees of steps

A step guarantees something if, started in a frame of one kind, it ends with a
result and a frame of another kind, or fails for one of the causes that are
admitted.  The rules below follow the way steps are put together.
-/

namespace Custody.Eval

open Code

/-- The cause of a failure.  A hole in the body is no cause. -/
def Failure.cause? : Failure → Option Cause
  | malformed => none
  | plain cause | located _ _ cause => some cause

@[simp] theorem Failure.cause?_locate (failure : Failure) (pos : Int) (kind : Kind) :
    (failure.locate pos kind).cause? = failure.cause? := by
  cases failure <;> rfl

/-- A failure is admitted if its cause is. -/
def Failure.Admitted (admits : Cause → Prop) (failure : Failure) : Prop :=
  ∀ cause ∈ failure.cause?, admits cause

variable {α β : Type} {admits : Cause → Prop} {before : Frame → Prop}
variable {after : α → Frame → Prop} {step : Step α}

/-- An outcome is as it should be. -/
def Meets (admits : Cause → Prop) (after : α → Frame → Prop) :
    EStateM.Result Failure Frame α → Prop
  | .ok result frame => after result frame
  | .error failure _ => failure.Admitted admits

/-- A step ends as it should in all frames of a kind. -/
def Ensures (admits : Cause → Prop) (before : Frame → Prop) (after : α → Frame → Prop)
    (step : Step α) : Prop :=
  ∀ frame, before frame → Meets admits after (step frame)

namespace Ensures

theorem pure {result : α} (holds : ∀ frame, before frame → after result frame) :
    Ensures admits before after (Pure.pure result) := holds

theorem malformed : Ensures admits before after (throw .malformed) := by
  intro frame _ cause named
  cases named

theorem fail {cause : Cause} (admitted : admits cause) :
    Ensures admits before after (Step.fail cause) := by
  intro frame _ other named
  cases named
  exact admitted

theorem bind {last : β → Frame → Prop} {next : α → Step β}
    (first : Ensures admits before after step)
    (second : ∀ result, Ensures admits (after result) last (next result)) :
    Ensures admits before last (step >>= next) := by
  intro frame holds
  have start := first frame holds
  cases done : step frame with
  | ok result middle =>
      rw [done] at start
      rw [bind_of_ok done]
      exact second result middle start
  | error failure middle =>
      rw [done] at start
      rw [bind_of_error done]
      exact start

theorem map {last : β → Frame → Prop} {change : α → β}
    (first : Ensures admits before after step)
    (mapped : ∀ result frame, after result frame → last (change result) frame) :
    Ensures admits before last (change <$> step) := by
  rw [map_eq_pure_bind]
  exact first.bind fun result => .pure fun frame holds => mapped result frame holds

theorem weaken {start : Frame → Prop} {last : α → Frame → Prop}
    (ensures : Ensures admits before after step)
    (enter : ∀ frame, start frame → before frame)
    (leave : ∀ result frame, after result frame → last result frame) :
    Ensures admits start last step := by
  intro frame holds
  have ends := ensures frame (enter frame holds)
  cases done : step frame with
  | ok result next =>
      rw [done] at ends
      exact leave result next ends
  | error failure next =>
      rw [done] at ends
      exact ends

/-- More causes may be admitted. -/
theorem permit {more : Cause → Prop} (ensures : Ensures admits before after step)
    (wider : ∀ cause, admits cause → more cause) : Ensures more before after step := by
  intro frame holds
  have ends := ensures frame holds
  cases done : step frame with
  | ok result next =>
      rw [done] at ends
      exact ends
  | error failure next =>
      rw [done] at ends
      exact fun cause named => wider cause (ends cause named)

theorem start {first : Frame → Prop} (ensures : Ensures admits before after step)
    (enter : ∀ frame, first frame → before frame) : Ensures admits first after step :=
  ensures.weaken enter fun _ _ holds => holds

/-- A fact that does not depend on the frame may be used. -/
theorem assuming {fact : Prop} (ensures : fact → Ensures admits before after step) :
    Ensures admits (fun frame => before frame ∧ fact) after step :=
  fun frame holds => ensures holds.2 frame holds.1

/-- A step that looks at the frame first. -/
theorem get {next : Frame → Step α}
    (holds : ∀ frame, before frame → Meets admits after (next frame frame)) :
    Ensures admits before after (MonadState.get >>= next) := holds

theorem ofRegistry {answer : Except Registry.Error α}
    (admitted : ∀ error, admits (.registry error)) :
    Ensures admits before (fun result frame => before frame ∧ answer = .ok result)
      (Step.ofRegistry answer) := by
  cases answer with
  | ok result => exact pure fun _ holds => ⟨holds, rfl⟩
  | error error => exact fail (admitted error)

/-- Failures may be put into other words that name no other cause. -/
theorem reword {explain : Failure → Failure} (ensures : Ensures admits before after step)
    (kept : ∀ failure, ∀ cause ∈ (explain failure).cause?, cause ∈ failure.cause?) :
    Ensures admits before after (Step.reword explain step) := by
  intro frame holds
  have ends := ensures frame holds
  unfold Step.reword
  cases done : step frame with
  | ok result next =>
      rw [done] at ends
      exact ends
  | error failure next =>
      rw [done] at ends
      exact fun cause named => ends cause (kept failure cause named)

theorem locate {pos : Int} {kind : Kind} (ensures : Ensures admits before after step) :
    Ensures admits before after (Step.locate pos kind step) := by
  have kept : ∀ failure : Failure, ∀ cause ∈ (failure.locate pos kind).cause?,
      cause ∈ failure.cause? := by simp
  exact ensures.reword kept

end Ensures

/-! ## Marks -/

namespace Tracked

theorem name_taint (heap : Heap) (pos : Int) (object : Ref) (tracked : Tracked) :
    (tracked.taint heap pos object).name = tracked.name := by
  unfold taint
  split
  · rfl
  · split <;> rfl

theorem name_returned (object : Ref) (tracked : Tracked) :
    (tracked.returned object).name = tracked.name := by
  unfold returned
  split <;> rfl

end Tracked

/-- A frame with other marks, notes and constructs passed over.  Nothing is said to be
left after the unit. -/
structure Frame.Remarked (frame other : Frame) : Prop where
  memory : other.memory = frame.memory
  names : other.params.map (·.name) = frame.params.map (·.name)
  objects : other.params.map (·.object) = frame.params.map (·.object)
  sink : other.sink = frame.sink
  captures : other.captures = frame.captures
  log : ∀ unit live, .objectsLeft unit live ∈ other.log → .objectsLeft unit live ∈ frame.log

namespace Frame.Remarked

variable {frame middle other : Frame}

theorem trans (first : frame.Remarked middle) (second : middle.Remarked other) :
    frame.Remarked other where
  memory := second.memory.trans first.memory
  names := second.names.trans first.names
  objects := second.objects.trans first.objects
  sink := second.sink.trans first.sink
  captures := second.captures.trans first.captures
  log := fun unit live noted => first.log unit live (second.log unit live noted)

theorem mapTracked (frame : Frame) {change : Tracked → Tracked}
    (names : ∀ tracked, (change tracked).name = tracked.name)
    (kept : ∀ tracked, (change tracked).object = tracked.object) :
    frame.Remarked (frame.mapTracked change) where
  memory := rfl
  names := by simp [Frame.mapTracked, Function.comp_def, names]
  objects := by simp [Frame.mapTracked, Function.comp_def, kept]
  sink := rfl
  captures := rfl
  log := fun _ _ noted => noted

theorem taint (frame : Frame) (pos : Int) (object : Option Ref) :
    frame.Remarked (frame.taint pos object) := by
  cases object with
  | none => exact ⟨rfl, rfl, rfl, rfl, rfl, fun _ _ noted => noted⟩
  | some object =>
      exact mapTracked frame (fun tracked => tracked.name_taint _ _ _)
        fun tracked => tracked.object_taint _ _ _

theorem mark (frame : Frame) (owner : Ref) (name : String) :
    frame.Remarked (frame.mark owner name) :=
  ⟨rfl, rfl, rfl, rfl, rfl, fun _ _ noted => noted⟩

end Frame.Remarked

end Custody.Eval
