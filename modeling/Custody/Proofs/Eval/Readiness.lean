import Custody.Proofs.Code.Resolution
import Custody.Proofs.Eval.Upkeep
import Custody.Proofs.Heap.Hands
import Custody.Proofs.Memory.Growth

/-!
# Steps that succeed

An evaluation has objects in hand between its steps: the values of arguments, and the
object whose fields they are attached to.  A frame is `Ready` for a place and some
objects in hand if these are firm or loose, the memory is sound, and the variables of the
place are bound.  Then no step meets an object that has been released, and none fails but
for want of an answer: what a step `Yields` is a result, or a failure for an admitted cause.
-/

namespace Custody.Eval

open Code Heap

variable {α β : Type}

/-- A step has a result in all frames of a kind, or fails for a cause that is admitted.  A hole
in the body is no such cause. -/
def Yields (admits : Cause → Prop) (before : Frame → Prop) (after : α → Frame → Prop)
    (step : Step α) : Prop :=
  ∀ frame, before frame →
    match step frame with
    | .ok result next => after result next
    | .error failure _ => ∃ cause, failure.cause? = some cause ∧ admits cause

namespace Yields

variable {admits : Cause → Prop} {before : Frame → Prop} {after : α → Frame → Prop}
variable {step : Step α}

theorem of_ok (succeeds : ∀ frame, before frame →
      ∃ result next, step frame = .ok result next ∧ after result next) :
    Yields admits before after step := by
  intro frame start
  obtain ⟨result, next, done, holds⟩ := succeeds frame start
  rw [done]
  exact holds

/-- Where no cause is admitted, there is a result. -/
theorem exists_ok (yields : Yields (fun _ => False) before after step) {frame : Frame}
    (start : before frame) : ∃ result next, step frame = .ok result next ∧ after result next := by
  have ends := yields frame start
  cases done : step frame with
  | ok result next =>
      rw [done] at ends
      exact ⟨result, next, rfl, ends⟩
  | error failure next =>
      rw [done] at ends
      obtain ⟨_, _, admitted⟩ := ends
      exact admitted.elim

theorem pure {result : α} (holds : ∀ frame, before frame → after result frame) :
    Yields admits before after (Pure.pure result) := holds

theorem fail {cause : Cause} (admitted : admits cause) :
    Yields admits before after (Step.fail cause) := fun _ _ => ⟨cause, rfl, admitted⟩

theorem bind {last : β → Frame → Prop} {next : α → Step β} (first : Yields admits before after step)
    (second : ∀ result, Yields admits (after result) last (next result)) :
    Yields admits before last (step >>= next) := by
  intro frame start
  have middle := first frame start
  cases done : step frame with
  | ok result between =>
      rw [done] at middle
      rw [bind_of_ok done]
      exact second result between middle
  | error failure between =>
      rw [done] at middle
      rw [bind_of_error done]
      exact middle

theorem map {last : β → Frame → Prop} {change : α → β} (first : Yields admits before after step)
    (holds : ∀ result frame, after result frame → last (change result) frame) :
    Yields admits before last (change <$> step) := by
  rw [map_eq_pure_bind]
  exact first.bind fun result => pure (holds result)

theorem weaken {start : Frame → Prop} {last : α → Frame → Prop}
    (yields : Yields admits before after step) (begins : ∀ frame, start frame → before frame)
    (ends : ∀ result frame, after result frame → last result frame) :
    Yields admits start last step := by
  intro frame holds
  have finished := yields frame (begins frame holds)
  cases done : step frame with
  | ok result next =>
      rw [done] at finished
      exact ends result next finished
  | error failure next =>
      rw [done] at finished
      exact finished

/-- A fact that does not depend on the frame may be used. -/
theorem assuming {fact : Prop} (yields : fact → Yields admits before after step) :
    Yields admits (fun frame => before frame ∧ fact) after step :=
  fun frame holds => yields holds.2 frame holds.1

theorem locate {pos : Int} {kind : Kind} (yields : Yields admits before after step) :
    Yields admits before after (Step.locate pos kind step) := by
  intro frame start
  have finished := yields frame start
  unfold Step.locate
  cases done : step frame with
  | ok result next =>
      rw [done] at finished
      exact finished
  | error failure next =>
      rw [done] at finished
      simpa using finished

/-- Either the registry knows the answer, or that it does not is admitted. -/
theorem ofRegistry {answer : Except Registry.Error α}
    (excused : ∀ error, answer = .error error → admits (.registry error)) :
    Yields admits before (fun result frame => before frame ∧ answer = .ok result)
      (Step.ofRegistry answer) := by
  cases answer with
  | ok result => exact pure fun _ holds => ⟨holds, rfl⟩
  | error error => exact fail (excused error rfl)

end Yields

/-- What the registry answers is known. -/
theorem Step.ofRegistry_bind {answer : Except Registry.Error α} {result : α}
    (known : answer = .ok result) (next : α → Step β) :
    Step.ofRegistry answer >>= next = next result := by
  rw [known]
  rfl

/-- A scope in which some variables of a unit are declared, with the scopes that are open
and what is held besides. -/
structure Place where
  /-- All variables of the unit. -/
  table : Environment
  env : Environment
  scope : ScopeId
  opened : List ScopeId
  held : List Ref
  member : scope ∈ opened
  within : env ⊆ table

/-- A chain of fields leads to the object from a binding or from what is held besides. -/
abbrev Frame.Firm (frame : Frame) (held : List Ref) (ref : Ref) : Prop :=
  frame.heap.Firm (frame.memory.bound ++ held) ref

/-! ## Reading -/

section Reading

variable {registry : Registry} {summaries : Summaries} {method : Method} {frame : Frame}
variable {held : List Ref} {opened : List ScopeId} {owner : Ref} {name : String}

/-- What is made up in a field of a firm object is firm. -/
theorem exists_materialize (sound : frame.memory.Sound held opened) (firm : frame.Firm held owner)
    (free : frame.heap.field? owner name = none) (type : String) :
    ∃ heap, Step.materialize (.counting registry summaries method) owner type name frame =
        .ok frame.heap.objects.length ((frame.mark owner name).withHeap heap) ∧
      Heap.setField (some owner) name (some frame.heap.objects.length)
        (frame.heap.extended type true) = .ok () heap ∧
      { frame.memory with heap }.Sound held opened ∧
      heap.Firm (frame.memory.bound ++ held) frame.heap.objects.length := by
  have extended := sound.withNew type true
  have still : (frame.heap.extended type true).Firm (frame.memory.bound ++ held) owner :=
    firm.extended sound.owned.balanced type true
  have unoccupied : (frame.heap.extended type true).field? owner name = none := by
    rw [field?_extended]
    exact free
  have available : (frame.heap.extended type true).isReleased (some frame.heap.objects.length) =
      false := (Loose.new frame.heap type true).present
  obtain ⟨heap, set, after⟩ := extended.exists_setField (still.present extended.owned.balanced)
    available name
  have kept : heap.Firm (frame.memory.bound ++ held) owner :=
    still.setField after.owned.balanced set (.inl unoccupied)
  have done : (Context.counting registry summaries method).rules.setField (some owner) name
      (some frame.heap.objects.length) (Step.extendedFor owner type name frame).heap =
      .ok () heap := set
  have present := kept.present after.owned.balanced
  refine ⟨heap, ?_, set, after, kept.owns (owns_of_setField set present)⟩
  rw [Step.materialize_eq, bind_of_ok (Step.onHeap_of_ok done)]
  rfl

/-- What is read from a firm object is firm, and whatever making up an object keeps is kept. -/
theorem exists_read {holds : Frame → Prop} {type : String} (start : holds frame)
    (firm : frame.Firm held owner)
    (makes : frame.heap.field? owner name = none → ∃ made next,
      Step.materialize (.counting registry summaries method) owner type name frame =
        .ok made next ∧ holds next ∧ next.Firm held made) :
    ∃ found next, Step.read (.counting registry summaries method) owner type name frame =
      .ok found next ∧ holds next ∧ ∀ ref ∈ found, next.Firm held ref := by
  cases found : frame.heap.field? owner name with
  | some occupant =>
      refine ⟨_, _, Step.read_of_field found, start, ?_⟩
      rintro ref ⟨⟩
      exact firm.owns ⟨name, found⟩
  | none =>
      cases settled : frame.isSettled owner name with
      | true => exact ⟨_, _, Step.read_of_settled found settled, start, nofun⟩
      | false =>
          obtain ⟨made, next, done, after, known⟩ := makes found
          refine ⟨some made, next, ?_, after, ?_⟩
          · rw [Step.read_of_unsettled found settled, map_eq_pure_bind, bind_of_ok done]
            rfl
          · rintro ref ⟨⟩
            exact known

end Reading

/-! ## Readiness -/

/-- No step of an evaluation at a place that has some objects in hand fails. -/
structure Place.Ready (place : Place) (loose hand : List Ref) (frame : Frame) : Prop where
  sound : frame.memory.Sound place.held place.opened
  inHand : frame.heap.InHand (frame.memory.bound ++ place.held) loose hand
  spare : ∀ owner callee param number, frame.captures < number →
    frame.heap.field? owner (Step.captureField callee param number) = none
  sink : frame.sink ∈ place.held
  isOpen : ∀ scope ∈ place.opened, (frame.memory.scope scope).closed = false
  binds : ∀ entry ∈ place.env, frame.memory.Binds place.scope entry.1
  listed : frame.memory.Listed
  labels : frame.memory.labels ⊆ place.table

namespace Place.Ready

variable {place : Place} {loose hand others : List Ref} {frame other : Frame} {ref owner : Ref}
variable {name : String}

theorem balanced (ready : place.Ready loose hand frame) :
    frame.heap.Balanced (frame.memory.bound ++ place.held) := ready.sound.owned.balanced

theorem remarked (ready : place.Ready loose hand frame) (remarked : frame.Remarked other) :
    place.Ready loose hand other := by
  obtain ⟨sound, inHand, spare, sink, isOpen, binds, listed, labels⟩ := ready
  unfold Frame.heap at inHand spare
  rw [← remarked.memory] at sound inHand spare isOpen binds listed labels
  rw [← remarked.sink] at sink
  rw [← remarked.captures] at spare
  exact ⟨sound, inHand, spare, sink, isOpen, binds, listed, labels⟩

theorem fewer (ready : place.Ready loose hand frame) (fewer : others.Subperm hand) :
    place.Ready loose others frame :=
  { ready with inHand := ready.inHand.fewer fewer }

theorem right (ready : place.Ready loose (others ++ hand) frame) : place.Ready loose hand frame :=
  { ready with inHand := ready.inHand.right }

theorem forget (ready : place.Ready (ref :: loose) hand frame) :
    place.Ready loose (ref :: hand) frame :=
  { ready with inHand := ready.inHand.forget }

theorem firm (ready : place.Ready loose hand frame) (object : Option Ref)
    (firm : ∀ ref ∈ object, frame.Firm place.held ref) :
    place.Ready loose (object.toList ++ hand) frame := by
  cases object with
  | none => exact ready
  | some ref => exact { ready with inHand := ready.inHand.firm (firm ref rfl) }

theorem present (ready : place.Ready loose hand frame) (member : ref ∈ loose ++ hand) :
    (frame.heap.object ref).released = false := ready.inHand.present ready.balanced member

theorem available {object : Option Ref}
    (ready : place.Ready loose (object.toList ++ hand) frame) :
    frame.memory.heap.isReleased object = false := by
  cases object with
  | none => rfl
  | some ref => exact ready.present (List.mem_append_right _ (.head _))

/-- Another heap does not change what is bound. -/
theorem withHeap (ready : place.Ready loose hand frame) {heap : Heap} {captures : Nat}
    {idle rest : List Ref} (sound : { frame.memory with heap }.Sound place.held place.opened)
    (inHand : heap.InHand (frame.memory.bound ++ place.held) idle rest)
    (spare : ∀ owner callee param number, captures < number →
      heap.field? owner (Step.captureField callee param number) = none) :
    place.Ready idle rest (({ frame with captures } : Frame).withHeap heap) where
  sound := sound
  inHand := inHand
  spare := spare
  sink := ready.sink
  isOpen := ready.isOpen
  binds := ready.binds
  listed := ready.listed
  labels := ready.labels

theorem extended (ready : place.Ready loose hand frame) (type : String) (isExternal : Bool) :
    place.Ready loose (frame.heap.objects.length :: hand)
      (frame.withHeap (frame.heap.extended type isExternal)) := by
  refine ready.withHeap (ready.sound.withNew type isExternal)
    (ready.inHand.extended ready.balanced type isExternal) ?_
  intro owner callee param number later
  rw [field?_extended]
  exact ready.spare owner callee param number later

theorem allocate {admits : Cause → Prop} (place : Place) (loose hand : List Ref) (type : String) :
    Yields admits (place.Ready loose hand)
      (fun made frame => place.Ready loose (made :: hand) frame ∧ frame.heap.Loose made)
      (Step.onHeap (Heap.allocate type false)) := by
  refine .of_ok fun frame ready => ?_
  exact ⟨_, _, Step.onHeap_of_ok (allocate_eq frame.heap type false), ready.extended type false,
    .new frame.heap type false⟩

/-- A field of an object that is there can be set to something in hand. -/
theorem exists_setField {value : Option Ref}
    (ready : place.Ready loose (value.toList ++ hand) frame)
    (present : (frame.heap.object owner).released = false) (name : String) {captures : Nat}
    (more : frame.captures ≤ captures)
    (named : ∀ callee param number, captures < number →
      name ≠ Step.captureField callee param number) :
    ∃ heap, Heap.setField (some owner) name value frame.heap = .ok () heap ∧
      heap.Balanced (frame.memory.bound ++ place.held) ∧
      ∀ {idle rest}, heap.InHand (frame.memory.bound ++ place.held) idle rest →
        place.Ready idle rest (({ frame with captures } : Frame).withHeap heap) := by
  obtain ⟨heap, set, sound⟩ := ready.sound.exists_setField present ready.available name
  refine ⟨heap, set, sound.owned.balanced, fun inHand => ready.withHeap sound inHand ?_⟩
  intro other callee param number later
  cases found : heap.field? other (Step.captureField callee param number) with
  | none => rfl
  | some occupant =>
      rcases field?_of_setField set found with before | ⟨_, same, _⟩
      · have free := ready.spare other callee param number (Nat.lt_of_le_of_lt more later)
        exact before.symm.trans free
      · exact absurd same.symm (named callee param number later)

section Steps

variable {registry : Registry} {summaries : Summaries} {method : Method}

/-- A field of an object that is there can be assigned. -/
theorem overwrite {value : Option Ref} (ready : place.Ready loose (value.toList ++ hand) frame)
    (pos : Int) (firm : frame.Firm place.held owner) (named : Uncaptured name) :
    ∃ next, Step.overwrite (.counting registry summaries method) pos owner name value frame =
      .ok () next ∧ place.Ready [] [] next := by
  have marked := ready.remarked (((Frame.Remarked.taint frame pos (some owner)).trans
    (.taint _ pos value)).trans (.mark _ owner name))
  have present : ((((frame.taint pos (some owner)).taint pos value).mark owner name).heap.object
      owner).released = false := by simpa using firm.present ready.balanced
  rw [Step.overwrite_eq]
  obtain ⟨heap, set, _, after⟩ := marked.exists_setField present name (Nat.le_refl _)
    fun callee param number _ => named callee param number
  exact ⟨_, Step.onHeap_of_ok set, after (.nil heap _)⟩

/-- An argument can be attached to a new object. -/
theorem construct {value : Ref} (ready : place.Ready (owner :: loose) (value :: hand) frame)
    (pos : Int) (named : Uncaptured name) :
    ∃ next, Step.construct (.counting registry summaries method) pos owner name value frame =
      .ok () next ∧ place.Ready (owner :: loose) hand next := by
  have marked : place.Ready (owner :: loose) ((some value).toList ++ hand)
      (frame.taint pos (some value)) := ready.remarked (.taint frame pos (some value))
  have idle := marked.inHand.unheld owner (.head _)
  rw [Step.construct_eq]
  obtain ⟨heap, set, balanced, after⟩ := marked.exists_setField idle.present name (Nat.le_refl _)
    fun callee param number _ => named callee param number
  refine ⟨_, Step.onHeap_of_ok set, after ?_⟩
  exact marked.inHand.setField marked.balanced balanced set
    (.inr fun firm => firm.not_loose marked.balanced idle)

/-- What is captured goes to a field that is free. -/
theorem capture {value : Ref} {receiver : Option Ref}
    (ready : place.Ready loose (value :: hand) frame) (pos : Int) (callee : UnitId)
    (param : String) (known : ∀ ref ∈ receiver, ref ∈ loose ++ hand) :
    ∃ next, Step.capture (.counting registry summaries method) pos receiver callee param value
      frame = .ok () next ∧ place.Ready loose hand next := by
  have remarked : frame.Remarked ((frame.taint pos (some value)).taint pos receiver) :=
    (Frame.Remarked.taint frame pos (some value)).trans (.taint _ pos receiver)
  have marked : place.Ready loose ((some value).toList ++ hand)
      ((frame.taint pos (some value)).taint pos receiver) := ready.remarked remarked
  have present : ((((frame.taint pos (some value)).taint pos receiver)).heap.object
      (receiver.getD frame.sink)).released = false := by
    cases receiver with
    | none =>
        have firm : frame.Firm place.held frame.sink := .of_mem (List.mem_append_right _ ready.sink)
        simpa using firm.present ready.balanced
    | some ref =>
        have here := List.mem_append.1 (known ref rfl)
        exact marked.present (List.mem_append.2 (here.imp_right (List.mem_cons_of_mem _)))
  have later : ((frame.taint pos (some value)).taint pos receiver).captures < frame.captures + 1 := by
    rw [remarked.captures]
    exact Nat.lt_succ_self _
  have named : ∀ other label number, frame.captures + 1 < number →
      Step.captureField callee param (frame.captures + 1) ≠ Step.captureField other label number := by
    intro other label number later same
    rw [← Step.number_of_captureField same] at later
    exact Nat.lt_irrefl _ later
  rw [Step.capture_eq]
  obtain ⟨heap, set, balanced, after⟩ :=
    marked.exists_setField present _ (Nat.le_of_lt later) named
  refine ⟨_, Step.onHeap_of_ok set, after ?_⟩
  exact marked.inHand.setField marked.balanced balanced set
    (.inl (marked.spare _ callee param _ later))

/-- What is made up in a field of a firm object is firm. -/
theorem materialize (ready : place.Ready loose hand frame) (firm : frame.Firm place.held owner)
    (free : frame.heap.field? owner name = none) (named : Uncaptured name) (type : String) :
    ∃ made next, Step.materialize (.counting registry summaries method) owner type name frame =
        .ok made next ∧ place.Ready loose hand next ∧ next.Firm place.held made := by
  obtain ⟨heap, done, set, sound, known⟩ := exists_materialize ready.sound firm free type
  have marked := ready.remarked (Frame.Remarked.mark frame owner name)
  have extended : place.Ready loose ((some frame.heap.objects.length).toList ++ hand)
      (Step.extendedFor owner type name frame) := marked.extended type true
  obtain ⟨_, again, balanced, after⟩ := extended.exists_setField
    ((firm.extended ready.balanced type true).present extended.balanced) name (Nat.le_refl _)
    fun callee param number _ => named callee param number
  cases set.symm.trans again
  have unoccupied : (frame.heap.extended type true).field? owner name = none := by
    rw [field?_extended]
    exact free
  exact ⟨_, _, done,
    after (extended.inHand.setField extended.balanced balanced set (.inl unoccupied)), known⟩

theorem read (ready : place.Ready loose hand frame) (firm : frame.Firm place.held owner)
    (named : Uncaptured name) (type : String) :
    ∃ found next, Step.read (.counting registry summaries method) owner type name frame =
        .ok found next ∧ place.Ready loose hand next ∧
      ∀ ref ∈ found, next.Firm place.held ref :=
  exists_read ready firm fun free => ready.materialize firm free named type

end Steps

end Place.Ready

/-! ## Paths -/

section Paths

variable {admits : Cause → Prop} {place : Place} {loose hand : List Ref} {registry : Registry}
variable {summaries : Summaries} {method : Method} {type name : String}

/-- A frame is ready, and the object, if there is one, is firm. -/
def Place.ReadyOn (place : Place) (loose hand : List Ref) (object : Option Ref) (frame : Frame) :
    Prop :=
  place.Ready loose hand frame ∧ ∀ ref ∈ object, frame.Firm place.held ref

theorem Place.ReadyOn.inHand {object : Option Ref} {frame : Frame}
    (ready : place.ReadyOn loose hand object frame) :
    place.Ready loose (object.toList ++ hand) frame := ready.1.firm object ready.2

/-- What a name is bound to is firm. -/
theorem Place.Ready.bound {frame : Frame} (ready : place.Ready loose hand frame)
    {scope : ScopeId} {binding : BindingId}
    (found : frame.memory.lookup? scope name = some binding) :
    place.ReadyOn loose hand (frame.memory.binding binding).object frame :=
  ⟨ready, fun _ holds => .of_mem (List.mem_append_left _
    (Memory.mem_bound (ready.listed.lt_of_lookup? found) holds))⟩

/-- A variable of the place is bound. -/
theorem Place.Ready.exists_lookup? {frame : Frame} (ready : place.Ready loose hand frame)
    (declared : (name, type) ∈ place.env) :
    ∃ binding, frame.memory.lookup? place.scope name = some binding :=
  Option.isSome_iff_exists.1 (ready.binds _ declared).isSome_lookup?

/-- Fields lead from one type to another. -/
theorem Place.ReadyOn.field (unreserved : registry.Unreserved) {ownerType : String}
    (excused : ∀ error, registry.fieldType ownerType name = .error error →
      admits (.registry error)) (owner : Option Ref) :
    Yields admits (place.ReadyOn loose hand owner)
      (fun found frame => place.ReadyOn loose hand found.1 frame ∧
        registry.fieldType ownerType name = .ok found.2)
      (Step.field (.counting registry summaries method) owner ownerType name) := by
  rw [Step.field_eq]
  refine (Yields.ofRegistry excused).bind fun type => .assuming fun typed => ?_
  have named : Uncaptured name := fun callee param number =>
    unreserved ownerType name type callee param number typed
  cases owner with
  | none => exact .pure fun _ ready => ⟨⟨ready.1, nofun⟩, typed⟩
  | some owner =>
      refine .of_ok fun frame ready => ?_
      obtain ⟨found, next, done, after, firm⟩ := ready.1.read (ready.2 owner rfl) named type
      exact ⟨_, _, bind_of_ok done, ⟨after, firm⟩, typed⟩

theorem Place.ReadyOn.follow (unreserved : registry.Unreserved) (names : List String)
    {ownerType : String}
    (excused : ∀ error, registry.fieldChainType ownerType names = .error error →
      admits (.registry error)) (owner : Option Ref) :
    Yields admits (place.ReadyOn loose hand owner)
      (fun found frame => place.ReadyOn loose hand found.1 frame ∧
        registry.fieldChainType ownerType names = .ok found.2)
      (Step.follow (.counting registry summaries method) (owner, ownerType) names) := by
  induction names generalizing ownerType owner with
  | nil => exact .pure fun _ ready => ⟨ready, rfl⟩
  | cons name rest ih =>
      refine (Place.ReadyOn.field unreserved ?_ owner).bind fun found => .assuming fun typed => ?_
      · intro error refused
        exact excused error (by rw [Registry.fieldChainType, refused])
      · rw [Registry.fieldChainType, typed] at excused ⊢
        exact ih excused found.1

/-- The target of a path gets an object in hand. -/
theorem Place.ReadyOn.store (unreserved : registry.Unreserved) (pos : Int) {ownerType : String}
    (excused : ∀ error, registry.fieldType ownerType name = .error error →
      admits (.registry error)) (owner value : Option Ref) :
    Yields admits (place.ReadyOn [] (value.toList ++ []) owner) (fun _ => place.Ready [] [])
      (Step.store (.counting registry summaries method) pos owner ownerType name value) := by
  rw [Step.store_eq]
  refine (Yields.ofRegistry excused).bind fun type => .assuming fun typed => ?_
  have named : Uncaptured name := fun callee param number =>
    unreserved ownerType name type callee param number typed
  refine .of_ok fun frame ready => ?_
  cases owner with
  | none => exact ⟨(), _, rfl, ready.1.right.remarked ⟨rfl, rfl, rfl, rfl, rfl, by simp⟩⟩
  | some owner =>
      obtain ⟨next, done, after⟩ := ready.1.overwrite pos (ready.2 owner rfl) named
      exact ⟨(), next, done, after⟩

end Paths

end Custody.Eval
