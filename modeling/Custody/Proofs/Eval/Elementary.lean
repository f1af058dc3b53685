import Custody.Proofs.Data.Ending
import Custody.Proofs.Eval.Steps

/-!
# Elementary steps

What is done between the nodes of a body is put together from a few things: looking at the
frame, changing its marks, working on its memory, and failing for a cause.  Such a step names
no node for its failure, passes over no construct, and does not take back that a field was
written.
-/

namespace Custody.Eval

open Code

/-- A frame with other marks and notes.  What was written is not forgotten. -/
structure Frame.Annotates (frame other : Frame) : Prop where
  skipped : other.skipped = frame.skipped
  written : frame.written ⊆ other.written

namespace Frame.Annotates

theorem refl (frame : Frame) : frame.Annotates frame := ⟨rfl, List.Subset.refl _⟩

theorem trans {frame middle other : Frame} (first : frame.Annotates middle)
    (second : middle.Annotates other) : frame.Annotates other :=
  ⟨second.skipped.trans first.skipped, List.Subset.trans first.written second.written⟩

end Frame.Annotates

/-- A step that is put together from looks at the frame, changes of its marks and operations
on its memory. -/
inductive Elementary : {α : Type} → Step α → Prop where
  | pure {α : Type} (result : α) : Elementary (Pure.pure result : Step α)
  | fail {α : Type} (cause : Cause) : Elementary (Step.fail cause : Step α)
  | look {α : Type} (answer : Frame → α) : Elementary (fun frame => .ok (answer frame) frame)
  | modify {change : Frame → Frame} (annotates : ∀ frame : Frame, frame.Annotates (change frame)) :
      Elementary (modify change : Step PUnit)
  | onMemory {α : Type} (action : Memory.Action α) : Elementary (Step.onMemory action)
  | bind {α β : Type} {step : Step α} {next : α → Step β} (first : Elementary step)
      (second : ∀ result, Elementary (next result)) : Elementary (step >>= next)

namespace Elementary

variable {α β : Type}

theorem map {step : Step α} (change : α → β) (first : Elementary step) :
    Elementary (change <$> step) := by
  rw [map_eq_pure_bind]
  exact first.bind fun result => pure _

theorem get : Elementary (MonadState.get : Step Frame) := look id

theorem ofRegistry (answer : Except Registry.Error α) : Elementary (Step.ofRegistry answer) := by
  cases answer with
  | ok result => exact pure result
  | error error => exact fail _

theorem onHeap (action : Heap.Action α) : Elementary (Step.onHeap action) := onMemory _

theorem taint (pos : Int) (object : Option Ref) : Elementary (Step.taint pos object) := by
  cases object with
  | none => exact pure ()
  | some object => exact modify fun _ => ⟨rfl, List.Subset.refl _⟩

theorem returned (object : Option Ref) : Elementary (Step.returned object) := by
  cases object with
  | none => exact pure ()
  | some object => exact modify fun _ => ⟨rfl, List.Subset.refl _⟩

theorem markWritten (id : Nat) (name : String) : Elementary (Step.markWritten id name) :=
  modify fun _ => ⟨rfl, List.subset_cons_self _ _⟩

theorem note (entry : LogEntry) : Elementary (Step.note entry) :=
  modify fun _ => ⟨rfl, List.Subset.refl _⟩

variable {context : Context} {scope : ScopeId}

theorem materialize (owner : Ref) (type name : String) :
    Elementary (Step.materialize context owner type name) := by
  refine get.bind fun _ => (markWritten _ name).bind fun _ => (onHeap _).bind fun made => ?_
  exact (onHeap _).bind fun _ => pure made

theorem read (owner : Ref) (type name : String) :
    Elementary (Step.read context owner type name) := by
  refine get.bind fun frame => ?_
  split
  · exact pure _
  · split
    · exact pure _
    · exact (materialize owner type name).map _

theorem field (owner : Option Ref) (ownerType name : String) :
    Elementary (Step.field context owner ownerType name) := by
  rw [Step.field_eq]
  refine (ofRegistry _).bind fun type => ?_
  cases owner with
  | none => exact pure _
  | some owner => exact (read owner type name).bind fun found => pure _

theorem lookup? (name : String) : Elementary (Step.lookup? scope name) := look _

theorem receiver : Elementary (Step.receiver scope) := by
  refine (lookup? this).bind fun found => ?_
  cases found with
  | some binding => exact pure _
  | none => exact fail _

theorem first (name : String) : Elementary (Step.first context scope name) := by
  refine (lookup? name).bind fun found => ?_
  cases found with
  | some binding => exact pure _
  | none => exact receiver.bind fun object => field object _ name

theorem follow (names : List String) (place : Option Ref × String) :
    Elementary (Step.follow context place names) := by
  induction names generalizing place with
  | nil => exact pure place
  | cons name rest ih => exact (field place.1 place.2 name).bind ih

theorem path (qualifier : String) : Elementary (Step.path context scope qualifier) :=
  (first _).bind (follow _)

theorem reference (target : Reference) : Elementary (Step.reference context scope target) := by
  unfold Step.reference
  split
  · exact (first _).bind fun place => pure _
  · exact (path _).bind fun place => (field place.1 place.2 _).bind fun found => pure _

theorem callReceiver (qualifier : String) :
    Elementary (Step.callReceiver context scope qualifier) := by
  unfold Step.callReceiver
  split
  · exact (first _).bind fun place => pure _
  · exact (path _).bind fun place => pure _

theorem overwrite (pos : Int) (owner : Ref) (name : String) (value : Option Ref) :
    Elementary (Step.overwrite context pos owner name value) := by
  refine (taint pos _).bind fun _ => (taint pos value).bind fun _ => get.bind fun frame => ?_
  exact (markWritten _ name).bind fun _ => onHeap _

theorem store (pos : Int) (owner : Option Ref) (ownerType name : String) (value : Option Ref) :
    Elementary (Step.store context pos owner ownerType name value) := by
  rw [Step.store_eq]
  refine (ofRegistry _).bind fun _ => ?_
  cases owner with
  | none => exact note _
  | some owner => exact overwrite pos owner name value

/-- An assignment is passed over if it is one to the receiver, and is elementary if not. -/
theorem assign_cases (context : Context) (scope : ScopeId) (pos : Int) (target : Reference)
    (value : Option Ref) :
    (target.qualifier = "" ∧ target.member = this ∧
      Step.assign context scope pos target value =
        Step.skip context pos "receiver assignment") ∨
    (¬(target.qualifier = "" ∧ target.member = this) ∧
      Elementary (Step.assign context scope pos target value)) := by
  unfold Step.assign
  by_cases plain : target.qualifier = ""
  · by_cases same : target.member = this
    · refine .inl ⟨plain, same, ?_⟩
      rw [if_neg fun different => different plain, if_pos same]
    · refine .inr ⟨fun both => same both.2, ?_⟩
      rw [if_neg fun different => different plain, if_neg same]
      refine get.bind fun frame => ?_
      split
      · exact onMemory _
      · exact receiver.bind fun owner => store pos owner _ _ value
  · refine .inr ⟨fun both => plain both.1, ?_⟩
    rw [if_pos plain]
    exact (path _).bind fun place => store pos place.1 place.2 _ value

theorem method (unit : UnitId) : Elementary (Step.method context unit) := by
  refine (ofRegistry _).bind fun owner => ?_
  split
  · exact pure _
  · exact fail _

theorem requireAnalyzed (callee : Method) : Elementary (Step.requireAnalyzed context callee) := by
  unfold Step.requireAnalyzed
  split
  · exact fail _
  · exact pure ()

theorem capture (pos : Int) (receiver : Option Ref) (callee : UnitId) (param : String)
    (argument : Ref) : Elementary (Step.capture context pos receiver callee param argument) := by
  refine (taint pos _).bind fun _ => (taint pos receiver).bind fun _ => ?_
  exact bind (modify fun _ => ⟨rfl, List.Subset.refl _⟩) fun _ => get.bind fun _ => onHeap _

theorem applyArguments (pos : Int) (callee : Method) (receiver : Option Ref)
    (values : List (Option Ref)) (index : Nat) (result : Option Ref) :
    Elementary (Step.applyArguments context pos callee receiver index values result) := by
  induction values generalizing index result with
  | nil => exact pure result
  | cons value rest ih =>
      unfold Step.applyArguments
      split
      · exact pure result
      · split
        · exact fail _
        · exact ih _ _
        · cases value with
          | none => exact ih _ _
          | some value => exact (capture pos receiver _ _ value).bind fun _ => ih _ _
        · exact ih _ _
        · exact fail _

theorem applyEffects (pos : Int) (callee : Method) (receiver : Option Ref)
    (values : List (Option Ref)) :
    Elementary (Step.applyEffects context pos callee receiver values) := by
  refine (applyArguments pos callee receiver values 0 none).bind fun result => ?_
  split
  · exact (taint pos receiver).bind fun _ => pure _
  · exact pure _
  · exact pure _
  · exact pure _

theorem construct (pos : Int) (owner : Ref) (name : String) (value : Ref) :
    Elementary (Step.construct context pos owner name value) :=
  (taint pos _).bind fun _ => onHeap _

theorem constructAny (pos : Int) (owner : Ref) (name : String) (value : Option Ref) :
    Elementary (Step.constructAny context pos owner name value) := by
  cases value with
  | none => exact pure ()
  | some value => exact construct pos owner name value

/-! ## What elementary steps do not do -/

variable {step : Step α} {frame next : Frame}

/-- An elementary step, whether it fails or not, passes over nothing and forgets nothing that
was written. -/
theorem annotates (elementary : Elementary step) (frame : Frame) :
    frame.Annotates (ending (step frame)) := by
  induction elementary generalizing frame with
  | pure result | look answer | fail cause => exact .refl frame
  | modify annotates => exact annotates frame
  | onMemory action =>
      rw [Step.ending_onMemory]
      exact ⟨rfl, List.Subset.refl _⟩
  | bind first second ih later =>
      exact ending_bind _ (ih frame) fun value middle started holds => by
        have onward := later value middle
        exact holds.trans onward

/-- An elementary step fails for a cause, and names no node for it. -/
theorem plain (elementary : Elementary step) {failure : Failure}
    (failed : step frame = .error failure next) : ∃ cause, failure = .plain cause := by
  induction elementary generalizing frame with
  | pure result | look answer | modify => cases failed
  | fail cause =>
      cases failed
      exact ⟨cause, rfl⟩
  | onMemory action =>
      unfold Step.onMemory at failed
      split at failed
      next => cases failed
      next error memory refused =>
        cases failed
        exact ⟨.memory error, rfl⟩
  | @bind _ _ step next first second ih later =>
      cases started : step frame with
      | ok value middle => exact later value ((bind_of_ok started).symm.trans failed)
      | error other middle =>
          rw [bind_of_error started] at failed
          cases failed
          exact ih started

end Elementary

end Custody.Eval
