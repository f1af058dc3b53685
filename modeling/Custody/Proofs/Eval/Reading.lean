import Custody.Proofs.Eval.Coupling
import Custody.Proofs.Eval.Steps

/-!
# Reading on two sides

Two evaluations of the same paths end at the same objects if they find the same bindings
under the names that they look up, and the same objects in the fields that they read.
`Reading` says for which names and fields that is so; other variables and fields may differ
between the two sides.
-/

namespace Custody

/-- Some class has a field of the name. -/
def Registry.HasField (registry : Registry) (name : String) : Prop :=
  ∃ owner type, registry.fieldType owner name = .ok type

namespace Eval

open Code

/-- The same unit under other rules and with other summaries. -/
abbrev Context.under (context : Context) (rules : Heap.Discipline) (summaries : Summaries) :
    Context :=
  { context with rules, summaries }

/-- An agreement of frames in which the same is read on both sides. -/
structure Reading (context : Context) (rules : Heap.Discipline) (summaries : Summaries) extends
    Fate where
  /-- The frames agree. -/
  Agree : Frame → Frame → Prop
  /-- The object may be read on the left. -/
  Readable : Frame → Ref → Prop
  /-- The variable is the same on both sides. -/
  Alike : String → Prop
  /-- The field is the same on both sides. -/
  Shared : String → Prop
  lost : ∀ {frame other}, Agree frame other → Lost frame
  lookup : ∀ {frame other} scope name, Alike name → Agree frame other →
    other.memory.lookup? scope name = frame.memory.lookup? scope name
  binding : ∀ {frame other scope name binding}, Alike name → Agree frame other →
    frame.memory.lookup? scope name = some binding →
    other.memory.binding binding = frame.memory.binding binding ∧
      ∀ object ∈ (frame.memory.binding binding).object, Readable frame object
  read : ∀ owner type name, Shared name →
    Coupled toFate
      (fun frame other => Agree frame other ∧ Readable frame owner)
      (fun found frame other => Agree frame other ∧ ∀ object ∈ found, Readable frame object)
      (Step.read context owner type name)
      (Step.read (context.under rules summaries) owner type name)

namespace Reading

variable {context : Context} {rules : Heap.Discipline} {summaries : Summaries}
variable (reading : Reading context rules summaries)

/-- The frames agree and the object, if there is one, may be read. -/
def AgreeOn (object : Option Ref) (frame other : Frame) : Prop :=
  reading.Agree frame other ∧ ∀ ref ∈ object, reading.Readable frame ref

/-- A field that some class has is the same on both sides. -/
def Covers (name : String) : Prop := context.registry.HasField name → reading.Shared name

theorem lookup? (scope : ScopeId) {name : String} (alike : reading.Alike name) :
    Coupled reading.toFate reading.Agree
      (fun found => reading.AgreeOn (found.bind (·.object)))
      (Step.lookup? scope name) (Step.lookup? scope name) := by
  intro frame other agree
  refine ⟨other, ?_, agree, ?_⟩
  · simp only [Step.lookup?, reading.lookup scope name alike agree]
    cases found : frame.memory.lookup? scope name with
    | none => rfl
    | some binding => simp only [Option.map_some, (reading.binding alike agree found).1]
  · intro ref held
    cases found : frame.memory.lookup? scope name with
    | none => simp [found] at held
    | some binding =>
        rw [found] at held
        exact (reading.binding alike agree found).2 ref held

theorem receiver (scope : ScopeId) (alike : reading.Alike this) :
    Coupled reading.toFate reading.Agree reading.AgreeOn
      (Step.receiver scope) (Step.receiver scope) := by
  refine (reading.lookup? scope alike).bind fun found => ?_
  cases found with
  | some binding => exact .pure fun _ _ agree => agree
  | none => exact .fail fun _ _ agree => reading.lost agree.1

theorem field (owner : Option Ref) (ownerType : String) {name : String}
    (covers : reading.Covers name) :
    Coupled reading.toFate (reading.AgreeOn owner) (fun place => reading.AgreeOn place.1)
      (Step.field context owner ownerType name)
      (Step.field (context.under rules summaries) owner ownerType name) := by
  rw [Step.field_eq, Step.field_eq]
  refine (Coupled.ofRegistry fun _ _ agree => reading.lost agree.1).bind fun type => ?_
  refine .assuming fun known => ?_
  cases owner with
  | none => exact .pure fun _ _ agree => agree
  | some owner =>
      refine Coupled.bind ((reading.read owner type name (covers ⟨ownerType, type, known⟩)).start
        fun _ _ agree => ⟨agree.1, agree.2 owner rfl⟩) fun found => ?_
      exact .pure fun _ _ agree => agree

theorem first (scope : ScopeId) {name : String} (alike : reading.Alike name)
    (receiver : reading.Alike this) (covers : reading.Covers name) :
    Coupled reading.toFate reading.Agree (fun place => reading.AgreeOn place.1)
      (Step.first context scope name) (Step.first (context.under rules summaries) scope name) := by
  refine (reading.lookup? scope alike).bind fun found => ?_
  cases found with
  | some binding => exact .pure fun _ _ agree => agree
  | none =>
      refine Coupled.bind ((reading.receiver scope receiver).start fun _ _ agree => agree.1)
        fun object => ?_
      exact reading.field object context.method.owner covers

theorem follow {path : List String} (covers : ∀ name ∈ path, reading.Covers name)
    (place : Option Ref × String) :
    Coupled reading.toFate (reading.AgreeOn place.1) (fun place => reading.AgreeOn place.1)
      (Step.follow context place path)
      (Step.follow (context.under rules summaries) place path) := by
  induction path generalizing place with
  | nil => exact .pure fun _ _ agree => agree
  | cons name rest ih =>
      obtain ⟨object, type⟩ := place
      exact (reading.field object type (covers name (.head _))).bind
        (ih fun name member => covers name (.tail _ member))

theorem path (scope : ScopeId) {qualifier : String}
    (alike : reading.Alike (Path.parse qualifier).first) (receiver : reading.Alike this)
    (covers : ∀ name ∈ (Path.parse qualifier).first :: (Path.parse qualifier).rest,
      reading.Covers name) :
    Coupled reading.toFate reading.Agree (fun place => reading.AgreeOn place.1)
      (Step.path context scope qualifier)
      (Step.path (context.under rules summaries) scope qualifier) :=
  (reading.first scope alike receiver (covers _ (.head _))).bind
    (reading.follow fun name member => covers name (.tail _ member))

end Reading

end Eval

end Custody
