import Custody.Proofs.Eval.Renumbering
import Custody.Proofs.Eval.Upkeep

/-!
# Pessimistic summaries

A summary may say of an object that it is changed though a closer look would find that it
is not.  The callers of such a unit are then judged more severely, but never more mildly,
and they pass over the same constructs.

Under the severe summaries more is captured, so objects stay alive for longer and more is
reached.  Freeing cannot be seen in what an evaluation finds out, and so it is enough to
compare the two evaluations that never free anything.  These go the same way: they differ in
the fields that hold captures, which no path of the program ever reads.
-/

namespace Custody

/-! ## Raising effects -/

/-- An object that is said to stay as it is may be changed after all. -/
def Effect.raise : Effect → Effect
  | .doesNotChange => .doesChange
  | effect => effect

/-- The other effect is the same or a raised one. -/
def Effect.RaisedTo (effect other : Effect) : Prop :=
  other = effect ∨ effect = .doesNotChange ∧ other = .doesChange

theorem Effect.raisedTo_raise (chosen : Bool) (effect : Effect) :
    effect.RaisedTo (if chosen then effect.raise else effect) := by
  cases chosen with
  | false => exact .inl rfl
  | true =>
      cases effect with
      | doesNotChange => exact .inr ⟨rfl, rfl⟩
      | unknown | passForward | doesChange => exact .inl rfl

/-- The other effect is the same, or a change. -/
def Effect.WorsensTo (effect other : Effect) : Prop :=
  other = effect ∨ other = .doesChange

/-- Raise the effects on the chosen parameters, and on the receiver if it is chosen. -/
def Summary.raise (params : String → Bool) (receiver : Bool) (summary : Summary) : Summary where
  params := summary.params.map fun name effect => if params name then effect.raise else effect
  receiver := if receiver then summary.receiver.raise else summary.receiver

/-- Raise the chosen effects of all units. -/
def Summaries.raise (params : UnitId → String → Bool) (receivers : UnitId → Bool)
    (summaries : Summaries) : Summaries :=
  summaries.map fun unit summary => summary.raise (params unit) (receivers unit)

/-- Some effects of the other summary are raised. -/
structure Summary.RaisedTo (summary other : Summary) : Prop where
  params : ∀ name, Option.Rel Effect.RaisedTo (summary.params.find? name) (other.params.find? name)
  receiver : summary.receiver.RaisedTo other.receiver

theorem Summary.raisedTo_raise (summary : Summary) (params : String → Bool) (receiver : Bool) :
    summary.RaisedTo (summary.raise params receiver) where
  params name := by
    rw [Summary.raise, Table.find?_map]
    cases summary.params.find? name with
    | none => exact .none
    | some effect => exact .some (effect.raisedTo_raise (params name))
  receiver := summary.receiver.raisedTo_raise receiver

theorem Summary.RaisedTo.refl (summary : Summary) : summary.RaisedTo summary where
  params name := by
    cases summary.params.find? name with
    | none => exact .none
    | some effect => exact .some (.inl rfl)
  receiver := .inl rfl

theorem Summaries.raisedTo_raise (summaries : Summaries) (params : UnitId → String → Bool)
    (receivers : UnitId → Bool) (method : Method) :
    (summaries.of method).RaisedTo ((summaries.raise params receivers).of method) := by
  unfold Summaries.of Summaries.raise
  rw [Table.find?_map]
  cases summaries.find? method.unit with
  | none => exact .refl _
  | some summary => exact summary.raisedTo_raise (params method.unit) (receivers method.unit)

/-! ## Heaps with more captures -/

namespace Eval

open Code Heap

/-- A field under the name of a capture holds the value. -/
def Captures (heap : Heap) (owner value : Ref) : Prop :=
  ∃ name, ¬Uncaptured name ∧ heap.field? owner name = some value

theorem not_uncaptured (callee : UnitId) (param : String) (number : Nat) :
    ¬Uncaptured (Step.captureField callee param number) :=
  fun uncaptured => uncaptured callee param number rfl

/-- The other heap has the same objects with the same fields, but it may hold more captures. -/
structure Burdened (heap other : Heap) : Prop where
  length : other.objects.length = heap.objects.length
  lastId : other.lastId = heap.lastId
  id : ∀ ref, (other.object ref).id = (heap.object ref).id
  isExternal : ∀ ref, (other.object ref).isExternal = (heap.object ref).isExternal
  field? : ∀ owner name, Uncaptured name → other.field? owner name = heap.field? owner name
  captures : ∀ owner value, Captures heap owner value → Captures other owner value

namespace Burdened

variable {heap other : Heap} {owner value root object : Ref} {name : String}

theorem refl (heap : Heap) : Burdened heap heap :=
  ⟨rfl, rfl, fun _ => rfl, fun _ => rfl, fun _ _ _ => rfl, fun _ _ held => held⟩

theorem owns (burdened : Burdened heap other) (owns : heap.Owns owner value) :
    other.Owns owner value := by
  obtain ⟨name, found⟩ := owns
  by_cases uncaptured : Uncaptured name
  · exact ⟨name, (burdened.field? owner name uncaptured).trans found⟩
  · obtain ⟨label, _, held⟩ := burdened.captures owner value ⟨name, uncaptured, found⟩
    exact ⟨label, held⟩

/-- What is reached in the first heap is reached in the second. -/
theorem reaches (burdened : Burdened heap other) (reached : heap.reaches root object = true) :
    other.reaches root object = true := by
  rw [reaches_iff] at reached ⊢
  exact Relation.ReflTransGen.mono (fun _ _ => burdened.owns) root object reached

theorem extended (burdened : Burdened heap other) (type : String) (isExternal : Bool) :
    Burdened (heap.extended type isExternal) (other.extended type isExternal) where
  length := by rw [length_objects_extended, length_objects_extended, burdened.length]
  lastId := congrArg (· + 1) burdened.lastId
  id ref := by
    rw [object_extended, object_extended, burdened.length, burdened.lastId]
    split
    · rfl
    · exact burdened.id ref
  isExternal ref := by
    rw [object_extended, object_extended, burdened.length, burdened.lastId]
    split
    · rfl
    · exact burdened.isExternal ref
  field? owner name := by
    rw [field?_extended, field?_extended]
    exact burdened.field? owner name
  captures owner value := by
    simp only [Captures, field?_extended]
    exact burdened.captures owner value

/-- Assign a field that is no capture on both sides. -/
theorem assign (burdened : Burdened heap other) (uncaptured : Uncaptured name) (owner : Ref)
    (value : Option Ref) :
    Burdened (heap.update owner (.assign name value)) (other.update owner (.assign name value)) := by
  rcases Nat.lt_or_ge owner heap.objects.length with inside | outside
  · have across : owner < other.objects.length := Nat.lt_of_lt_of_eq inside burdened.length.symm
    refine ⟨?_, burdened.lastId, fun ref => ?_, fun ref => ?_, fun holder label plain => ?_, ?_⟩
    · rw [length_objects_update, length_objects_update, burdened.length]
    · rw [id_assign, id_assign, burdened.id]
    · rw [isExternal_assign, isExternal_assign, burdened.isExternal]
    · rw [field?_assign inside, field?_assign across, burdened.field? holder label plain]
    · rintro holder held ⟨label, captured, found⟩
      have apart : ∀ label, ¬Uncaptured label → ¬(holder = owner ∧ label = name) := by
        rintro _ captured ⟨_, rfl⟩
        exact captured uncaptured
      rw [field?_assign inside, if_neg (apart label captured)] at found
      obtain ⟨place, also, kept⟩ := burdened.captures holder held ⟨label, captured, found⟩
      refine ⟨place, also, ?_⟩
      rw [field?_assign across, if_neg (apart place also)]
      exact kept
  · rw [update_of_le outside, update_of_le (Nat.le_trans (Nat.le_of_eq burdened.length) outside)]
    exact burdened

/-- Capture something on the right, in a field that is free. -/
theorem capture (burdened : Burdened heap other) (captured : ¬Uncaptured name)
    (free : other.field? owner name = none) (value : Ref) :
    Burdened heap (other.update owner (.assign name (some value))) := by
  rcases Nat.lt_or_ge owner other.objects.length with inside | outside
  · refine ⟨?_, burdened.lastId, fun ref => ?_, fun ref => ?_, fun holder label plain => ?_, ?_⟩
    · rw [length_objects_update, burdened.length]
    · rw [id_assign, burdened.id]
    · rw [isExternal_assign, burdened.isExternal]
    · have apart : ¬(holder = owner ∧ label = name) := by
        rintro ⟨_, rfl⟩
        exact captured plain
      rw [field?_assign inside, if_neg apart, burdened.field? holder label plain]
    · intro holder held captures
      obtain ⟨label, also, found⟩ := burdened.captures holder held captures
      refine ⟨label, also, ?_⟩
      rw [field?_assign inside, if_neg, found]
      rintro ⟨rfl, rfl⟩
      rw [free] at found
      cases found
  · rw [update_of_le outside]
    exact burdened

/-- Capture something on the left that the right side has captured. -/
theorem follow (burdened : Burdened heap other) (captured : ¬Uncaptured name)
    (held : owner < heap.objects.length → Captures other owner value) :
    Burdened (heap.update owner (.assign name (some value))) other := by
  rcases Nat.lt_or_ge owner heap.objects.length with inside | outside
  · refine ⟨?_, burdened.lastId, fun ref => ?_, fun ref => ?_, fun holder label plain => ?_, ?_⟩
    · rw [length_objects_update, burdened.length]
    · rw [id_assign, burdened.id]
    · rw [isExternal_assign, burdened.isExternal]
    · have apart : ¬(holder = owner ∧ label = name) := by
        rintro ⟨_, rfl⟩
        exact captured plain
      rw [field?_assign inside, if_neg apart, burdened.field? holder label plain]
    · rintro holder kept ⟨label, also, found⟩
      rw [field?_assign inside] at found
      split at found
      next here =>
        cases found
        rw [here.1]
        exact held inside
      next => exact burdened.captures holder kept ⟨label, also, found⟩
  · rw [update_of_le outside]
    exact burdened

/-- Capture something on both sides, in a field that is free on the right. -/
theorem captureBoth {label : String} (burdened : Burdened heap other) (left : ¬Uncaptured name)
    (right : ¬Uncaptured label) (free : other.field? owner label = none) (value : Ref) :
    Burdened (heap.update owner (.assign name (some value)))
      (other.update owner (.assign label (some value))) := by
  refine (burdened.capture right free value).follow left fun inside => ⟨label, right, ?_⟩
  rw [field?_assign (Nat.lt_of_lt_of_eq inside burdened.length.symm), if_pos ⟨rfl, rfl⟩]

end Burdened

/-! ## Frames with more changes -/

/-- The other object has met the same fate, but it may have been changed as well. -/
structure Tracked.Worse (tracked other : Tracked) : Prop where
  name : other.name = tracked.name
  object : other.object = tracked.object
  copied : other.copied = tracked.copied
  forward : other.forward = tracked.forward
  changed : tracked.changedAt.isSome = true → other.changedAt.isSome = true

namespace Tracked.Worse

variable {tracked other : Tracked} {heap across : Heap}

theorem refl (tracked : Tracked) : tracked.Worse tracked := ⟨rfl, rfl, rfl, rfl, id⟩

/-- An object is changed on the right. -/
theorem taintRight (worse : tracked.Worse other) (heap : Heap) (pos : Int) (object : Ref) :
    tracked.Worse (other.taint heap pos object) := by
  unfold Tracked.taint
  split
  · exact worse
  · split
    · exact ⟨worse.name, worse.object, worse.copied, worse.forward, fun _ => rfl⟩
    · exact worse

/-- An object is changed on both sides, where the right one reaches more. -/
theorem taint (worse : tracked.Worse other) (burdened : Burdened heap across) (pos : Int)
    (object : Ref) :
    (tracked.taint heap pos object).Worse (other.taint across pos object) := by
  by_cases spared : tracked.changedAt.isSome || (tracked.copied && tracked.object = object)
  · rw [Tracked.taint, if_pos spared]
    exact worse.taintRight across pos object
  · by_cases reached : heap.reaches tracked.object object = true
    · have changed : (other.taint across pos object).changedAt.isSome = true := by
        unfold Tracked.taint
        rw [worse.copied, worse.object, burdened.reaches reached]
        simp only [Bool.or_eq_true, not_or, Bool.not_eq_true] at spared
        rw [spared.2]
        split
        next known => simpa using known
        next => rfl
      have kept := worse.taintRight across pos object
      rw [Tracked.taint, if_neg spared, if_pos reached]
      exact ⟨kept.name, kept.object, kept.copied, kept.forward, fun _ => changed⟩
    · rw [Tracked.taint, if_neg spared, if_neg reached]
      exact worse.taintRight across pos object

theorem returned (worse : tracked.Worse other) (object : Ref) :
    (tracked.returned object).Worse (other.returned object) := by
  unfold Tracked.returned
  rw [worse.object]
  split
  · exact ⟨worse.name, rfl, worse.copied, rfl, worse.changed⟩
  · exact worse

end Tracked.Worse

/-- The other frame has gone the same way with more captures and changes.  Its next captures
go to free fields. -/
structure Frame.Worse (frame other : Frame) : Prop where
  memory : other.memory = frame.memory.withHeap other.heap
  heap : Burdened frame.heap other.heap
  receiver : frame.receiver.Worse other.receiver
  params : List.Forall₂ Tracked.Worse frame.params other.params
  sink : other.sink = frame.sink
  written : other.written = frame.written
  skipped : other.skipped = frame.skipped
  spare : ∀ owner callee param number, other.captures < number →
    other.heap.field? owner (Step.captureField callee param number) = none

namespace Frame.Worse

variable {frame other : Frame} {owner : Ref} {name type : String}

theorem taintRight (worse : frame.Worse other) (pos : Int) (object : Option Ref) :
    frame.Worse (other.taint pos object) := by
  cases object with
  | none => exact worse
  | some object =>
      refine { worse with
        receiver := worse.receiver.taintRight other.heap pos object
        params := ?_ }
      exact List.forall₂_map_right_iff.2
        (worse.params.imp fun _ _ marks => marks.taintRight other.heap pos object)

theorem taint (worse : frame.Worse other) (pos : Int) (object : Option Ref) :
    (frame.taint pos object).Worse (other.taint pos object) := by
  cases object with
  | none => exact worse
  | some object =>
      refine { worse with
        receiver := worse.receiver.taint worse.heap pos object
        params := ?_ }
      exact List.forall₂_map_left_iff.2 (List.forall₂_map_right_iff.2
        (worse.params.imp fun _ _ marks => marks.taint worse.heap pos object))

theorem returned (worse : frame.Worse other) (object : Ref) :
    (frame.mapTracked (.returned object)).Worse (other.mapTracked (.returned object)) :=
  { worse with
    receiver := worse.receiver.returned object
    params := List.forall₂_map_left_iff.2 (List.forall₂_map_right_iff.2
      (worse.params.imp fun _ _ marks => marks.returned object)) }

theorem mark (worse : frame.Worse other) (owner : Ref) (name : String) :
    (frame.mark owner name).Worse (other.mark owner name) :=
  { worse with
    written := by
      unfold Frame.mark
      rw [worse.written, worse.heap.id] }

theorem isSettled (worse : frame.Worse other) (owner : Ref) (name : String) :
    other.isSettled owner name = frame.isSettled owner name := by
  unfold Frame.isSettled
  rw [worse.written, worse.heap.id, worse.heap.isExternal]

theorem lookup? (worse : frame.Worse other) (scope : ScopeId) (name : String) :
    other.memory.lookup? scope name = frame.memory.lookup? scope name := by
  rw [worse.memory]
  rfl

/-- Both sides go on with other heaps. -/
theorem withHeap (worse : frame.Worse other) {left right : Heap} (burdened : Burdened left right)
    (spare : ∀ owner callee param number, other.captures < number →
      right.field? owner (Step.captureField callee param number) = none) :
    (frame.withHeap left).Worse (other.withHeap right) :=
  { worse with
    memory := congrArg (·.withHeap right) worse.memory
    heap := burdened
    spare }

theorem extended (worse : frame.Worse other) (type : String) (isExternal : Bool) :
    (frame.withHeap (frame.heap.extended type isExternal)).Worse
      (other.withHeap (other.heap.extended type isExternal)) := by
  refine worse.withHeap (worse.heap.extended type isExternal) fun owner callee param number => ?_
  rw [field?_extended]
  exact worse.spare owner callee param number

theorem assign (worse : frame.Worse other) (uncaptured : Uncaptured name) (owner : Ref)
    (value : Option Ref) :
    (frame.withHeap (frame.heap.update owner (.assign name value))).Worse
      (other.withHeap (other.heap.update owner (.assign name value))) := by
  refine worse.withHeap (worse.heap.assign uncaptured owner value)
    fun holder callee param number later => ?_
  rcases Nat.lt_or_ge owner other.heap.objects.length with inside | outside
  · rw [field?_assign inside, if_neg fun here => uncaptured callee param number here.2.symm]
    exact worse.spare holder callee param number later
  · rw [update_of_le outside]
    exact worse.spare holder callee param number later

/-- The frame after one more capture. -/
theorem capture (worse : frame.Worse other) (heap : Heap) (callee : UnitId) (param : String)
    (owner value : Ref)
    (burdened : Burdened heap (other.heap.update owner
      (.assign (Step.captureField callee param (other.captures + 1)) (some value))))
    (captures : Nat) :
    { frame.withHeap heap with captures }.Worse
      { other.withHeap (other.heap.update owner
          (.assign (Step.captureField callee param (other.captures + 1)) (some value))) with
        captures := other.captures + 1 } :=
  { worse with
    memory := congrArg (·.withHeap (other.heap.update owner
      (.assign (Step.captureField callee param (other.captures + 1)) (some value)))) worse.memory
    heap := burdened
    spare := by
      intro holder unit label number later
      have earlier := worse.spare holder unit label number (Nat.lt_of_succ_lt later)
      change (other.heap.update owner _).field? holder _ = none
      rcases Nat.lt_or_ge owner other.heap.objects.length with inside | outside
      · rw [field?_assign inside, if_neg]
        · exact earlier
        · rintro ⟨_, same⟩
          exact Nat.ne_of_gt later (Step.number_of_captureField same)
      · rw [update_of_le outside]
        exact earlier }

end Frame.Worse

/-! ## Steps -/

/-- The evaluation of a unit that never frees anything. -/
abbrev Context.hoarding (registry : Registry) (summaries : Summaries) (method : Method) : Context :=
  ⟨registry, summaries, .hoarding, method⟩

section Steps

variable {registry : Registry} {summaries others : Summaries} {method : Method}

theorem hoarding_setField (frame : Frame) (owner : Ref) (name : String) (value : Option Ref) :
    Step.onHeap (Discipline.hoarding.setField (some owner) name value) frame =
      .ok () (frame.withHeap (frame.heap.update owner (.assign name value))) :=
  Step.onHeap_of_ok rfl

/-- An operation on scopes and bindings goes the same way on any heap. -/
theorem coupled_inert {α : Type} {action : Memory.Action α}
    (inert : ∀ {memory result next}, action memory = .ok result next →
      ∀ shadow, action (memory.withHeap shadow) = .ok result (next.withHeap shadow)) :
    Coupled hoardingFate Frame.Worse (fun _ => Frame.Worse) (Step.onMemory action)
      (Step.onMemory action) := by
  intro frame other worse
  unfold Step.onMemory
  cases done : action frame.memory with
  | error error next => exact ⟨trivial, fun impossible => impossible.elim⟩
  | ok result next =>
      have same : next.heap = frame.heap := by
        have again := inert done frame.heap
        rw [show frame.memory.withHeap frame.heap = frame.memory from rfl, done] at again
        have unmoved : next = next.withHeap frame.heap := (EStateM.Result.ok.inj again).2
        rw [unmoved]
        rfl
      rw [worse.memory, inert done other.heap]
      have burdened : Burdened next.heap other.heap := by
        rw [same]
        exact worse.heap
      exact ⟨_, rfl, { worse with memory := rfl, heap := burdened }⟩

theorem coupled_taint (pos : Int) (object : Option Ref) :
    Coupled hoardingFate Frame.Worse (fun _ => Frame.Worse) (Step.taint pos object)
      (Step.taint pos object) := by
  intro frame other worse
  rw [Step.taint_eq, Step.taint_eq]
  exact ⟨_, rfl, worse.taint pos object⟩

/-- What only the severe summaries change. -/
theorem coupled_taintRight (pos : Int) (object : Option Ref) :
    Coupled hoardingFate Frame.Worse (fun _ => Frame.Worse) (pure ()) (Step.taint pos object) := by
  intro frame other worse
  rw [Step.taint_eq]
  exact ⟨_, rfl, worse.taintRight pos object⟩

theorem capture_hoarding (pos : Int) (receiver : Option Ref) (callee : UnitId) (param : String)
    (argument : Ref) (frame : Frame) :
    Step.capture (.hoarding registry summaries method) pos receiver callee param argument frame =
      .ok () { ((frame.taint pos (some argument)).taint pos receiver).withHeap
          (frame.heap.update (receiver.getD frame.sink)
            (.assign (Step.captureField callee param (frame.captures + 1)) (some argument))) with
        captures := frame.captures + 1 } := by
  rw [Step.capture_eq, hoarding_setField]
  cases receiver <;> rfl

theorem coupled_capture (pos : Int) (receiver : Option Ref) (callee : UnitId) (param : String)
    (argument : Ref) :
    Coupled hoardingFate Frame.Worse (fun _ => Frame.Worse)
      (Step.capture (.hoarding registry summaries method) pos receiver callee param argument)
      (Step.capture (.hoarding registry others method) pos receiver callee param argument) := by
  intro frame other worse
  rw [capture_hoarding, capture_hoarding, worse.sink]
  have tainted := (worse.taint pos (some argument)).taint pos receiver
  have free := worse.spare (receiver.getD frame.sink) callee param _ (Nat.lt_succ_self _)
  have burdened := worse.heap.captureBoth (not_uncaptured callee param (frame.captures + 1))
    (not_uncaptured callee param (other.captures + 1)) free argument
  refine ⟨_, rfl, ?_⟩
  have kept := tainted.capture _ callee param (receiver.getD frame.sink) argument
    (by simpa using burdened) (frame.captures + 1)
  simpa using kept

/-- What only the severe summaries capture. -/
theorem coupled_captureRight (pos : Int) (receiver : Option Ref) (callee : UnitId) (param : String)
    (argument : Ref) :
    Coupled hoardingFate Frame.Worse (fun _ => Frame.Worse) (pure ())
      (Step.capture (.hoarding registry others method) pos receiver callee param argument) := by
  intro frame other worse
  rw [capture_hoarding]
  have tainted := (worse.taintRight pos (some argument)).taintRight pos receiver
  have free := worse.spare (receiver.getD other.sink) callee param _ (Nat.lt_succ_self _)
  have burdened := worse.heap.capture (not_uncaptured callee param (other.captures + 1)) free
    argument
  refine ⟨_, rfl, ?_⟩
  have kept := tainted.capture frame.heap callee param (receiver.getD other.sink) argument
    (by simpa using burdened) frame.captures
  rw [show { frame.withHeap frame.heap with captures := frame.captures } = frame from rfl] at kept
  simpa using kept

theorem coupled_materialize {name : String} (uncaptured : Uncaptured name) (owner : Ref)
    (type : String) :
    Coupled hoardingFate Frame.Worse (fun _ => Frame.Worse)
      (Step.materialize (.hoarding registry summaries method) owner type name)
      (Step.materialize (.hoarding registry others method) owner type name) := by
  intro frame other worse
  rw [Step.materialize_eq, Step.materialize_eq, worse.heap.length,
    bind_of_ok (hoarding_setField _ owner name _), bind_of_ok (hoarding_setField _ owner name _)]
  exact ⟨_, rfl, ((worse.mark owner name).extended type true).assign uncaptured owner _⟩

theorem coupled_uncaptured {name : String} (uncaptured : Uncaptured name) (owner : Ref)
    (type : String) :
    Coupled hoardingFate Frame.Worse (fun _ => Frame.Worse)
      (Step.read (.hoarding registry summaries method) owner type name)
      (Step.read (.hoarding registry others method) owner type name) := by
  intro frame other worse
  have same := worse.heap.field? owner name uncaptured
  cases found : frame.heap.field? owner name with
  | some occupant =>
      rw [Step.read_of_field found, Step.read_of_field (same.trans found)]
      exact ⟨other, rfl, worse⟩
  | none =>
      cases settled : frame.isSettled owner name with
      | true =>
          rw [Step.read_of_settled found settled,
            Step.read_of_settled (same.trans found) ((worse.isSettled owner name).trans settled)]
          exact ⟨other, rfl, worse⟩
      | false =>
          rw [Step.read_of_unsettled found settled,
            Step.read_of_unsettled (same.trans found) ((worse.isSettled owner name).trans settled)]
          exact (coupled_materialize uncaptured owner type frame other worse).map
            fun _ _ _ worse => worse

/-! ## Calls -/

variable {callee : Method}

theorem coupled_requireAnalyzed (raised : (summaries.of callee).RaisedTo (others.of callee)) :
    Coupled hoardingFate Frame.Worse (fun _ => Frame.Worse)
      (Step.requireAnalyzed (.hoarding registry summaries method) callee)
      (Step.requireAnalyzed (.hoarding registry others method) callee) := by
  have same : (others.of callee).receiver = .unknown ↔ (summaries.of callee).receiver = .unknown := by
    rcases raised.receiver with same | ⟨mild, severe⟩
    · rw [same]
    · rw [mild, severe]
      decide
  unfold Step.requireAnalyzed
  simp only [same]
  split
  · exact .fail fun _ _ _ => trivial
  · exact .pure fun _ _ worse => worse

theorem coupled_applyArguments (raised : (summaries.of callee).RaisedTo (others.of callee))
    (pos : Int) (receiver : Option Ref) (values : List (Option Ref)) (index : Nat)
    (result : Option Ref) :
    Coupled hoardingFate Frame.Worse (fun _ => Frame.Worse)
      (Step.applyArguments (.hoarding registry summaries method) pos callee receiver index values
        result)
      (Step.applyArguments (.hoarding registry others method) pos callee receiver index values
        result) := by
  induction values generalizing index result with
  | nil => exact .pure fun _ _ worse => worse
  | cons value rest ih =>
      unfold Step.applyArguments
      cases callee.paramAt? index with
      | none => exact .pure fun _ _ worse => worse
      | some param =>
          have answers := raised.params param.name
          simp only [Summary.param]
          generalize (summaries.of callee).params.find? param.name = mild at answers ⊢
          generalize (others.of callee).params.find? param.name = severe at answers ⊢
          cases answers with
          | none => exact .fail fun _ _ _ => trivial
          | some raised =>
              rcases raised with rfl | ⟨rfl, rfl⟩
              · rename_i effect
                cases effect with
                | unknown => exact .fail fun _ _ _ => trivial
                | passForward => exact ih (index + 1) (result.or value)
                | doesNotChange => exact ih (index + 1) result
                | doesChange =>
                    cases value with
                    | none => exact ih (index + 1) result
                    | some value =>
                        exact (coupled_capture pos receiver callee.unit param.name value).bind
                          fun _ => ih (index + 1) result
              · cases value with
                | none => exact ih (index + 1) result
                | some value =>
                    exact (coupled_captureRight pos receiver callee.unit param.name value).bind
                      fun _ => ih (index + 1) result

theorem coupled_applyEffects (raised : (summaries.of callee).RaisedTo (others.of callee))
    (pos : Int) (receiver : Option Ref) (values : List (Option Ref)) :
    Coupled hoardingFate Frame.Worse (fun _ => Frame.Worse)
      (Step.applyEffects (.hoarding registry summaries method) pos callee receiver values)
      (Step.applyEffects (.hoarding registry others method) pos callee receiver values) := by
  refine (coupled_applyArguments raised pos receiver values 0 none).bind fun result => ?_
  dsimp only
  rcases raised.receiver with same | ⟨mild, severe⟩
  · rw [same]
    cases (summaries.of callee).receiver with
    | doesChange =>
        exact (coupled_taint pos receiver).bind fun _ => .pure fun _ _ worse => worse
    | passForward | doesNotChange | unknown => exact .pure fun _ _ worse => worse
  · rw [mild, severe]
    exact (coupled_taintRight pos receiver).bind fun _ => .pure fun _ _ worse => worse

end Steps

/-- Under raised summaries an evaluation goes the same way, with more captures and changes. -/
def pessimism (registry : Registry) (summaries others : Summaries) (method : Method)
    (unreserved : registry.Unreserved) :
    Simulation (.hoarding registry summaries method) .hoarding others where
  toFate := hoardingFate
  Agree _ := Frame.Worse
  Readable _ _ := True
  Inner _ := True
  Attaches := Uncaptured
  Fits callee := (summaries.of callee).RaisedTo (others.of callee)
  lost _ := trivial
  forget worse := worse
  lookup scope name worse := worse.lookup? scope name
  binding worse _ := by
    refine ⟨?_, fun _ _ => trivial⟩
    rw [worse.memory]
    rfl
  note _ entry := .modify fun _ _ worse => { worse with }
  skip _ pos construct := by
    intro frame other worse
    refine ⟨_, rfl, { worse with skipped := ?_ }⟩
    exact congrArg (· ++ [⟨pos, construct⟩]) worse.skipped
  taint _ pos object := coupled_taint pos object
  returned _ object := by
    intro frame other worse
    cases object with
    | none => exact ⟨_, rfl, worse⟩
    | some object => exact ⟨_, rfl, worse.returned object⟩
  allocate _ type := by
    intro frame other worse
    rw [Step.onHeap_of_ok (allocate_eq frame.heap type false),
      Step.onHeap_of_ok (allocate_eq other.heap type false), worse.heap.length]
    exact ⟨_, rfl, worse.extended type false⟩
  read _ owner type name known := by
    have uncaptured : Uncaptured name := fun callee param number =>
      known.elim fun _ ⟨_, declared⟩ => unreserved _ name _ callee param number declared
    refine (coupled_uncaptured uncaptured owner type).weaken (fun _ _ worse => worse.1) ?_
    exact fun _ _ _ worse => ⟨worse, fun _ _ => trivial⟩
  overwrite _ pos owner name value known := by
    have uncaptured : Uncaptured name := fun callee param number =>
      known.elim fun _ ⟨_, declared⟩ => unreserved _ name _ callee param number declared
    rintro frame other ⟨worse, _⟩
    rw [Step.overwrite_eq, Step.overwrite_eq, hoarding_setField, hoarding_setField]
    have marked := ((worse.taint pos (some owner)).taint pos value).mark owner name
    exact ⟨_, rfl, marked.assign uncaptured owner value⟩
  numbered index := uncaptured_numbered index
  construct _ pos owner name value uncaptured _ := by
    intro frame other worse
    rw [Step.construct_eq, Step.construct_eq, hoarding_setField, hoarding_setField]
    exact ⟨_, rfl, (worse.taint pos (some value)).assign uncaptured owner (some value)⟩
  capture _ pos receiver callee param argument := coupled_capture pos receiver callee param argument
  effects _ raised := .inr fun _ =>
    ⟨coupled_requireAnalyzed raised, fun pos receiver values =>
      coupled_applyEffects raised pos receiver values⟩
  openChild _ scope := (coupled_inert fun done shadow => by cases done; rfl).weaken
    (fun _ _ worse => worse) fun _ _ _ worse => ⟨worse, trivial⟩
  close _ scope _ := coupled_inert fun {memory _ _} done shadow => by
    have closed := Memory.close_hoarding .hoarding scope memory shadow
    rw [show Memory.close .hoarding scope memory = _ from done] at closed
    exact closed
  declare _ scope name type object _ := coupled_inert fun done => Memory.declare_hoarding done
  rebind _ scope name binding object _ :=
    (coupled_inert fun done => Memory.rebind_hoarding done).start fun _ _ worse => worse.1
  sweep _ := fun _ other worse => ⟨other, rfl, worse⟩

/-! ## Units -/

theorem Tracked.Worse.effect {tracked other : Tracked} (worse : tracked.Worse other) :
    tracked.effect.WorsensTo other.effect := by
  unfold Tracked.effect
  cases changed : other.changedAt.isSome with
  | true => exact .inr rfl
  | false =>
      have unchanged : tracked.changedAt.isSome = false := by
        cases known : tracked.changedAt.isSome with
        | false => rfl
        | true =>
            rw [worse.changed known] at changed
            cases changed
      rw [unchanged, worse.forward]
      exact .inl rfl

/-- The other result says the same of every parameter and of the receiver, or that they are
changed, and it passes over the same constructs. -/
structure Result.WorsensTo (result other : Result) : Prop where
  effects : ∀ name,
    Option.Rel Effect.WorsensTo (result.effects.find? name) (other.effects.find? name)
  receiver : result.receiver.WorsensTo other.receiver
  skipped : other.skipped = result.skipped

theorem Frame.Worse.result {frame other : Frame} (worse : frame.Worse other) :
    frame.result.WorsensTo other.result where
  effects := Table.rel_find?_ofList <| List.forall₂_map_left_iff.2 <|
    List.forall₂_map_right_iff.2 <| worse.params.imp fun _ _ marks => ⟨marks.name, marks.effect⟩
  receiver := worse.receiver.effect
  skipped := worse.skipped

/-- Where nothing is captured yet, a frame is no worse than itself. -/
theorem Frame.Worse.refl {frame : Frame} (bare : Bare frame.heap) : frame.Worse frame where
  memory := rfl
  heap := .refl _
  receiver := .refl _
  params := List.forall₂_same.2 fun _ _ => .refl _
  sink := rfl
  written := rfl
  skipped := rfl
  spare owner callee param number _ := bare owner (Step.captureField callee param number)

/-- The names under which a construction attaches its arguments. -/
def argumentNames : Node → List String
  | .new _ _ _ args => args.map (·.1)
  | _ => []

section Runs

variable {registry : Registry} {summaries others : Summaries} {method : Method} {lastId : Nat}
variable {frame other : Frame} {result found : Result}

/-- At the end of the body, the frame under raised summaries is the worse one. -/
theorem worse_of_finishes (unreserved : registry.Unreserved)
    (plain : ∀ node ∈ method.decl.nodes, ∀ name ∈ argumentNames node, name.toList.head? ≠ some '$')
    (raised : ∀ callee, (summaries.of callee).RaisedTo (others.of callee))
    (mild : Finishes (.hoarding registry summaries method) lastId frame)
    (severe : Finishes (.hoarding registry others method) lastId other) : frame.Worse other := by
  obtain ⟨entry, memory, shadow, _, entered, _, bare⟩ := exists_enter_hoarding method lastId
  obtain ⟨_, _, inner, entering, finished⟩ := mild
  obtain ⟨_, _, _, also, ended⟩ := severe
  rw [entered] at entering also
  cases entering
  cases also
  have suits : (pessimism registry summaries others method unreserved).Suits method.decl.nodes := by
    refine ⟨fun _ _ _ callee _ _ => raised callee, fun pos type maker args member arg listed _ => ?_⟩
    exact uncaptured_of_head (plain _ member arg.1 (List.mem_map_of_mem listed))
  have ran := (pessimism registry summaries others method unreserved).body entry.root suits
    (entry.frame (memory.withHeap shadow)) _ (.refl bare)
  rw [finished] at ran
  obtain ⟨_, followed, worse⟩ := ran
  rw [ended] at followed
  cases followed
  exact worse

end Runs

/-- More pessimistic summaries of the units that a method calls make its own effects no
milder: whenever it has a result under both, every parameter and the receiver has the same
effect under the raised summaries or is changed, and the same constructs are passed over. -/
theorem run_raise (registry : Registry) (summaries : Summaries) (method : Method)
    (params : UnitId → String → Bool) (receivers : UnitId → Bool) (lastId start : Nat)
    {result found : Result}
    (fields : ∀ owner ∈ registry.classes.values, ∀ name ∈ owner.fields.keys,
      name.toList.head? ≠ some '$')
    (arguments : ∀ node ∈ method.decl.nodes, ∀ name ∈ argumentNames node,
      name.toList.head? ≠ some '$')
    (done : (run (.counting registry summaries method) lastId).result = .ok result)
    (also : (run (.counting registry (summaries.raise params receivers) method) start).result =
      .ok found) :
    result.WorsensTo found := by
  obtain ⟨moved, again, effects, receiver, skipped⟩ := exists_result_from also lastId
  obtain ⟨_, frame, mild⟩ := run_hoarding registry summaries method lastId done
  obtain ⟨_, other, severe⟩ := run_hoarding registry _ method lastId again
  have worse := (worse_of_finishes (unreserved_of_names fields) arguments
    (summaries.raisedTo_raise params receivers) mild.follows severe.follows).result
  refine ⟨fun name => ?_, ?_, ?_⟩
  · rw [← effects, ← mild.effects, ← severe.effects]
    exact worse.effects name
  · rw [← receiver, ← mild.receiver, ← severe.receiver]
    exact worse.receiver
  · rw [← skipped, ← mild.skipped, ← severe.skipped]
    exact worse.skipped

/-- A method that compares two objects. -/
def comparing : MethodDecl where
  pos := 0
  name := "compare"
  params := [⟨0, "left", "Cell", false⟩, ⟨0, "right", "Cell", false⟩]
  result := "Cell"
  isConstructor := false
  valueReceiver := false
  body := none

/-- A method that has two objects compared, returns the first and keeps the second. -/
def choosing : MethodDecl where
  pos := 0
  name := "choose"
  params := [⟨0, "first", "Cell", false⟩, ⟨0, "second", "Cell", false⟩]
  result := "Cell"
  isConstructor := false
  valueReceiver := false
  body := some ⟨0, [
    .localVar 1 "Cell" [("judge", .new 1 "Cell" "" [("next", .reference ⟨1, "", "second"⟩)])],
    .call 2 "judge" "compare" [.reference ⟨2, "", "first"⟩, .reference ⟨2, "", "second"⟩],
    .ret 3 [.reference ⟨3, "", "first"⟩]]⟩

/-- A class of cells that are compared. -/
def judges : Registry :=
  .ofProgram ⟨[⟨0, "Cell", "", [⟨0, "Cell", ["next"]⟩], [comparing, choosing]⟩]⟩

/-- Comparing is said to leave everything as it is. -/
def trusting : Summaries :=
  .ofList [(⟨"Cell", "compare"⟩,
    ⟨.ofList [("left", .doesNotChange), ("right", .doesNotChange)], .doesNotChange⟩)]

/-- The first object is returned. -/
def lenient : Result where
  effects := .ofList [("first", .passForward), ("second", .doesChange)]
  receiver := .doesNotChange
  changes := .ofList [("second", 1)]
  heap := [⟨1, 1, "Cell", []⟩, ⟨2, 1, "", []⟩, ⟨3, 2, "Cell", []⟩, ⟨4, 3, "Cell", []⟩,
    ⟨5, 1, "Cell", ["next"]⟩]
  skipped := []

/-- The first object has been captured before it is returned. -/
def severe : Result where
  effects := .ofList [("first", .doesChange), ("second", .doesChange)]
  receiver := .doesNotChange
  changes := .ofList [("first", 2), ("second", 1)]
  heap := [⟨5, 1, "Cell", []⟩, ⟨6, 1, "", []⟩, ⟨7, 3, "Cell", []⟩, ⟨8, 3, "Cell", []⟩,
    ⟨9, 1, "Cell", ["$Cell.compare.left#1", "next"]⟩]
  skipped := []

theorem run_raise_choose :
    (run (.counting judges trusting (.ofDecl "Cell" choosing)) 0).result = .ok lenient ∧
      (run (.counting judges (trusting.raise (fun _ param => param == "left") fun _ => false)
        (.ofDecl "Cell" choosing)) 4).result = .ok severe ∧ lenient.WorsensTo severe := by
  have mild : (run (.counting judges trusting (.ofDecl "Cell" choosing)) 0).result = .ok lenient := by
    decide +kernel
  have raised : (run (.counting judges
      (trusting.raise (fun _ param => param == "left") fun _ => false)
      (.ofDecl "Cell" choosing)) 4).result = .ok severe := by
    decide +kernel
  exact ⟨mild, raised, run_raise judges trusting (.ofDecl "Cell" choosing) _ _ 0 4 (by decide +kernel)
    (by decide +kernel) mild raised⟩

end Eval

end Custody
