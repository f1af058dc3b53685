import Custody.Proofs.Eval.Passages
import Custody.Proofs.Eval.Separation

/-!
# What comes after a site

An evaluation that succeeds has evaluated every node that it came to, and gone on from there:
a trail leads from the frame after such a node to the frame at the end of the body.  On the
way the unit keeps its parameters, and what is changed stays changed.
-/

namespace Custody.Eval

open Code Move

/-! ## Going on -/

section Resuming

variable {registry : Registry} {summaries : Summaries} {method : Method}
variable {α β : Type} {whole : Recorder α} {evaluation : Step α} {part : Recorder β} {inside : Step β}

/-- What is evaluated on the way of an evaluation that succeeds has succeeded, and the evaluation
has gone on from there. -/
theorem Passes.resumes {journal there : Journal} {value : α} {last : Frame}
    (passes : Passes whole journal part there)
    (outer : Follows registry summaries method [] whole evaluation)
    (inner : Follows registry summaries method [] part inside)
    (earlier : journal.Extends (.counting registry summaries method) there)
    (done : evaluation journal.frame = .ok value last) :
    ∃ answer middle, inside there.frame = .ok answer middle ∧
      Reached (.counting registry summaries method) middle last := by
  obtain ⟨final, ran, rfl, all⟩ := outer.comes journal done
  obtain ⟨answer, next, finished⟩ := passes.succeeds value final ran
  have stays := passes.stays
  have onward := inner.extended there nofun
  rw [finished] at stays onward
  rw [ran] at stays
  have same := inner.same there
  rw [finished] at same
  exact ⟨answer, next.frame, same.symm, ((earlier.trans onward).between all stays).reached⟩

/-- Where an evaluation comes to a node and succeeds, that node has been evaluated, and the
evaluation has gone on from there. -/
theorem Site.Enters.resumes {site inner : Site} {value : Option Ref} {after : Frame}
    (enters : site.Enters (.counting registry summaries method) inner)
    (done : Step.eval (.counting registry summaries method) site.scope site.node site.frame =
      .ok value after) :
    ∃ answer middle,
      Step.eval (.counting registry summaries method) inner.scope inner.node inner.frame =
        .ok answer middle ∧
      Reached (.counting registry summaries method) middle after := by
  obtain ⟨there, same, earlier, passes⟩ := enters.passes []
  rw [← same]
  exact passes.resumes (.eval site.scope site.node) (.eval inner.scope inner.node) earlier done

/-- Where the body of a unit is evaluated to its end, so is every node that the evaluation
comes to, and a trail leads from there to the end. -/
theorem Visits.resumes {lastId : Nat} {site : Site} {entry : Entry} {memory : Memory}
    {inner : ScopeId} {last : Frame}
    (visits : Visits (.counting registry summaries method) lastId site)
    (entered : enter .counting method (.ofHeap (.startingAfter lastId)) = .ok entry memory)
    (finished : body (.counting registry summaries method) entry.root (entry.frame memory) =
      .ok inner last) :
    ∃ answer middle,
      Step.eval (.counting registry summaries method) site.scope site.node site.frame =
        .ok answer middle ∧
      Reached (.counting registry summaries method) middle last := by
  obtain ⟨there, same, earlier, passes⟩ := visits.passes entered
  rw [← same]
  exact passes.resumes (.body entry.root) (.eval site.scope site.node) earlier finished

end Resuming

/-! ## What is kept on the way -/

/-- What was passed in under a name, and whether it is a copy. -/
def Tracked.passed (tracked : Tracked) : String × Ref × Bool :=
  (tracked.name, tracked.object, tracked.copied)

theorem Tracked.passed_eq_iff {left right : Tracked} :
    left.passed = right.passed ↔
      left.name = right.name ∧ left.object = right.object ∧ left.copied = right.copied := by
  simp [passed]

theorem Tracked.passed_taint (heap : Heap) (pos : Int) (object : Ref) (tracked : Tracked) :
    (tracked.taint heap pos object).passed = tracked.passed := by
  unfold taint
  split
  · rfl
  · split <;> rfl

theorem Tracked.passed_returned (object : Ref) (tracked : Tracked) :
    (tracked.returned object).passed = tracked.passed := by
  unfold returned
  split <;> rfl

/-- What was passed in as receiver and as parameters. -/
def Frame.passed (frame : Frame) : List (String × Ref × Bool) := frame.tracked.map (·.passed)

theorem Frame.passed_mapTracked {change : Tracked → Tracked}
    (same : ∀ tracked, (change tracked).passed = tracked.passed) (frame : Frame) :
    (frame.mapTracked change).passed = frame.passed := by
  simp [Frame.passed, Function.comp_def, same]

@[simp] theorem Frame.passed_taint (frame : Frame) (pos : Int) (object : Option Ref) :
    (frame.taint pos object).passed = frame.passed := by
  cases object with
  | none => rfl
  | some object => exact frame.passed_mapTracked (Tracked.passed_taint frame.heap pos object)

section Kept

variable {registry : Registry} {summaries : Summaries} {method : Method} {frame next : Frame}

theorem Move.passed (move : Move) (frame : Frame) :
    (ending (move.step (.counting registry summaries method) frame)).passed = frame.passed := by
  cases move with
  | allocate | openScope | skip | note => rfl
  | materialize owner type name =>
      rw [ending_materialize]
      rfl
  | store pos owner name value =>
      rw [ending_store]
      exact (Frame.passed_taint _ pos value).trans (frame.passed_taint pos (some owner))
  | construct pos owner name value =>
      rw [ending_construct]
      exact frame.passed_taint pos (some value)
  | capture pos receiver callee param argument =>
      rw [ending_capture]
      exact (Frame.passed_taint _ pos receiver).trans (frame.passed_taint pos (some argument))
  | taint pos object =>
      rw [step, Step.taint_eq]
      exact frame.passed_taint pos object
  | returned object =>
      cases object with
      | none => rfl
      | some object => exact frame.passed_mapTracked (Tracked.passed_returned object)
  | close | rebind =>
      rw [step, Step.ending_onMemory]
      rfl
  | declare scope name type object =>
      rw [step, ending_discard, Step.ending_onMemory]
      rfl
  | sweep | drop =>
      rw [step, Step.ending_onHeap]
      rfl

/-- A unit keeps what was passed in, and what is watched later was watched all along. -/
theorem Reached.keeps (reached : Reached (.counting registry summaries method) frame next) :
    next.passed = frame.passed ∧ Ages frame next := by
  obtain ⟨moves, trail, rfl⟩ := reached
  clear trail
  induction moves using List.reverseRecOn with
  | nil => exact ⟨rfl, .of_eq rfl rfl⟩
  | append_singleton moves move ih =>
      rw [perform_append, perform_singleton]
      exact ⟨(move.passed _).trans ih.1, ih.2.trans (move.ages _)⟩

theorem Reached.passed_receiver
    (reached : Reached (.counting registry summaries method) frame next) :
    next.receiver.passed = frame.receiver.passed :=
  (List.cons.inj reached.keeps.1).1

theorem Reached.passed_params
    (reached : Reached (.counting registry summaries method) frame next) :
    next.params.map (·.passed) = frame.params.map (·.passed) :=
  (List.cons.inj reached.keeps.1).2

/-- No tracked object at the place is watched. -/
def Frame.Unwatched (frame : Frame) (object : Ref) : Prop :=
  ∀ tracked ∈ frame.tracked, tracked.object = object → ¬tracked.Watched

theorem Ages.unwatched {object : Ref} (ages : Ages frame next)
    (unwatched : frame.Unwatched object) :
    next.Unwatched object := by
  rintro tracked member rfl watched
  obtain ⟨before, inside, wasWatched, same⟩ := ages.watched tracked member watched
  exact unwatched before inside same wasWatched

end Kept

end Custody.Eval
