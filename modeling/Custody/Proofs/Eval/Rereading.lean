import Custody.Proofs.Eval.Agreement
import Custody.Proofs.Eval.Cells
import Custody.Proofs.Eval.Elementary

/-!
# Reading again

The first look at a field of the caller's may make up an object.  After that the field is
known, and whoever reads it again gets the same answer and changes nothing.  A field that has
been assigned holds what was assigned, be it nothing, and no object is ever made up for it.
What is known about the other fields does not change in either case.
-/

namespace Custody

open Code

theorem Heap.id_setField (heap : Heap) (owner : Option Ref) (name : String) (value : Option Ref)
    (ref : Ref) :
    ((ending (Heap.setField owner name value heap)).object ref).id = (heap.object ref).id := by
  rcases Heap.setField_thins heap owner name value with kept | ⟨owner, _, _, _, assigned⟩
  · exact (kept.object ref).id
  · rw [(assigned.object ref).id, Heap.id_assign]

namespace Eval

variable {α β : Type} {registry : Registry} {summaries : Summaries} {method : Method}
variable {held : List Ref} {opened : List ScopeId} {frame next : Frame} {scope : ScopeId}
variable {owner : Ref} {type name : String} {lastId : Nat}

/-! ## Steps that can be taken again -/

/-- The same outcome, with another frame left behind. -/
def restated (outcome : EStateM.Result Failure Frame α) (frame : Frame) :
    EStateM.Result Failure Frame α :=
  match outcome with
  | .ok result _ => .ok result frame
  | .error failure _ => .error failure frame

@[simp] theorem restated_ending (outcome : EStateM.Result Failure Frame α) :
    restated outcome (ending outcome) = outcome := by
  cases outcome <;> rfl

/-- A step only reads, and once it has been taken, it has the same outcome whenever it is taken
again, as long as nothing but reading happens in between. -/
structure Rereads (held : List Ref) (opened : List ScopeId) (step : Step α) (frame : Frame) :
    Prop where
  reads : ReadsOnly held opened frame (ending (step frame))
  again : ∀ {after}, ReadsOnly held opened (ending (step frame)) after →
    step after = restated (step frame) after

namespace Rereads

variable {step : Step α}

/-- The second time nothing changes. -/
theorem twice (rereads : Rereads held opened step frame) :
    step (ending (step frame)) = step frame := by
  rw [rereads.again (.refl rereads.reads.sound), restated_ending]

/-- A step that is the same as another one as long as nothing but reading happens. -/
theorem congr {other : Step α} (sound : frame.memory.Sound held opened)
    (rereads : Rereads held opened other frame)
    (same : ∀ {after}, ReadsOnly held opened frame after → step after = other after) :
    Rereads held opened step frame := by
  have start := same (.refl sound)
  constructor
  · rw [start]
    exact rereads.reads
  · intro after onward
    rw [start] at onward ⊢
    rw [same (rereads.reads.trans onward)]
    exact rereads.again onward

theorem pure (sound : frame.memory.Sound held opened) (result : α) :
    Rereads held opened (Pure.pure result) frame := ⟨.refl sound, fun _ => rfl⟩

theorem fail (sound : frame.memory.Sound held opened) (cause : Cause) :
    Rereads held opened (Step.fail cause : Step α) frame := ⟨.refl sound, fun _ => rfl⟩

theorem bind {last : α → Step β} (first : Rereads held opened step frame)
    (second : ∀ result middle, step frame = .ok result middle →
      Rereads held opened (last result) middle) :
    Rereads held opened (step >>= last) frame := by
  obtain ⟨reads, again⟩ := first
  cases done : step frame with
  | ok result middle =>
      rw [done, ending_ok] at reads
      have rest := second result middle done
      constructor
      · rw [bind_of_ok done]
        exact reads.trans rest.reads
      · intro after onward
        rw [bind_of_ok done] at onward ⊢
        rw [done, ending_ok] at again
        rw [bind_of_ok (again (rest.reads.trans onward))]
        exact rest.again onward
  | error failure middle =>
      rw [done, ending_error] at reads
      constructor
      · rw [bind_of_error done]
        exact reads
      · intro after onward
        rw [bind_of_error done] at onward ⊢
        rw [done] at again
        exact bind_of_error (again onward)

end Rereads

/-! ## Fields -/

/-- A field that is known is read without any change. -/
theorem Step.read_of_known (known : frame.isUnread owner name = false) (context : Context)
    (type : String) :
    Step.read context owner type name frame = .ok (frame.heap.field? owner name) frame := by
  simp only [Frame.isUnread, Bool.or_eq_false_iff, decide_eq_false_iff_not] at known
  cases found : frame.heap.field? owner name with
  | some occupant => exact read_of_field found
  | none => exact read_of_settled found (by simpa [found] using known.2)

theorem Step.field_of_known {ownerType : String} (known : frame.isUnread owner name = false)
    (answer : registry.fieldType ownerType name = .ok type) :
    Step.field (.counting registry summaries method) (some owner) ownerType name frame =
      .ok (frame.heap.field? owner name, type) frame := by
  rw [Step.field_eq, Step.ofRegistry_bind answer]
  dsimp only
  rw [bind_of_ok (Step.read_of_known known _ type)]
  rfl

/-- What is known about a field stays known while nothing but reading happens. -/
theorem ReadsOnly.known (reads : ReadsOnly held opened frame next)
    (known : frame.isUnread owner name = false)
    (present : (frame.heap.object owner).released = false) :
    next.isUnread owner name = false := by
  have same := reads.field?_eq present known
  have inside := Nat.lt_of_lt_of_le (Heap.lt_of_not_released present) reads.spares.length
  simp only [Frame.isUnread, Bool.or_eq_false_iff, decide_eq_false_iff_not, Nat.not_le] at known ⊢
  refine ⟨inside, ?_⟩
  rw [same]
  cases found : frame.heap.field? owner name with
  | some occupant => rfl
  | none =>
      have settled := reads.spares.settled known.1 (by simpa [found] using known.2)
      simp [settled]

namespace Rereads

variable (registry summaries method)

theorem read (sound : frame.memory.Sound held opened) (firm : frame.Firm held owner)
    (type name : String) :
    Rereads held opened (Step.read (.counting registry summaries method) owner type name)
      frame := by
  obtain ⟨found, next, done, _⟩ := exists_read_of_sound sound firm type name
  have present := firm.present sound.owned.balanced
  obtain ⟨reads, same, known⟩ := ReadsOnly.read sound present done
  constructor
  · rw [done]
    exact reads
  · intro after onward
    rw [done, ending_ok] at onward
    have there := reads.still present
    rw [Step.read_of_known (onward.known known there), onward.field?_eq there known, same, done]
    rfl

theorem field (sound : frame.memory.Sound held opened) {object : Option Ref}
    (firm : ∀ ref ∈ object, frame.Firm held ref) (ownerType name : String) :
    Rereads held opened
      (Step.field (.counting registry summaries method) object ownerType name) frame := by
  rw [Step.field_eq]
  cases answer : registry.fieldType ownerType name with
  | error error => exact fail sound _
  | ok type =>
      rw [Step.ofRegistry_bind rfl]
      cases object with
      | none => exact pure sound _
      | some owner =>
          refine (read registry summaries method sound (firm owner rfl) type name).bind ?_
          intro found middle done
          have reads := (read registry summaries method sound (firm owner rfl) type name).reads
          rw [done] at reads
          exact pure reads.sound _

theorem follow (sound : frame.memory.Sound held opened) {object : Option Ref}
    (firm : ∀ ref ∈ object, frame.Firm held ref) (type : String) (names : List String) :
    Rereads held opened
      (Step.follow (.counting registry summaries method) (object, type) names) frame := by
  induction names generalizing object type frame with
  | nil => exact pure sound _
  | cons name rest ih =>
      refine (field registry summaries method sound firm type name).bind fun place middle done => ?_
      have echoes := Echoes.field registry summaries method sound firm type name
      rw [done] at echoes
      obtain ⟨_, kept, known⟩ := echoes
      exact ih kept known place.2

end Rereads

/-! ## Paths -/

section Paths

variable {context : Context} {binding : BindingId} {qualifier : String}

theorem Step.path_of_bound
    (found : frame.memory.lookup? scope (Path.parse qualifier).first = some binding) :
    Step.path context scope qualifier frame =
      Step.follow context
        ((frame.memory.binding binding).object, (frame.memory.binding binding).type)
        (Path.parse qualifier).rest frame :=
  bind_of_ok (first_of_bound context found)

/-- A path that starts at a field of the receiver. -/
theorem Step.path_of_unbound
    (free : frame.memory.lookup? scope (Path.parse qualifier).first = none)
    (found : frame.memory.lookup? scope this = some binding) :
    Step.path context scope qualifier frame =
      Step.follow context ((frame.memory.binding binding).object, context.method.owner)
        ((Path.parse qualifier).first :: (Path.parse qualifier).rest) frame := by
  have started := first_of_unbound context free found
  rw [Step.follow]
  simp only [Step.path, Bind.bind, EStateM.bind, started]

variable (registry summaries method)

/-- Where the receiver is bound, a path leads to the same object when it is read again. -/
theorem Rereads.path (sound : frame.memory.Sound held opened)
    (here : frame.memory.lookup? scope this = some binding) (qualifier : String) :
    Rereads held opened (Step.path (.counting registry summaries method) scope qualifier)
      frame := by
  have firm : ∀ binding, ∀ ref ∈ (frame.memory.binding binding).object, frame.Firm held ref :=
    fun binding ref holds =>
      .of_mem (List.mem_append_left _ (Memory.mem_bound_iff.2 ⟨binding, holds⟩))
  have lookup : ∀ {after}, ReadsOnly held opened frame after → ∀ name,
      after.memory.lookup? scope name = frame.memory.lookup? scope name :=
    fun reads name => reads.spares.lookup scope name
  have same : ∀ {after}, ReadsOnly held opened frame after → ∀ binding,
      after.memory.binding binding = frame.memory.binding binding :=
    fun reads binding => reads.spares.binding (by simp)
  cases found : frame.memory.lookup? scope (Path.parse qualifier).first with
  | some start =>
      refine congr sound (follow registry summaries method sound (firm start)
        (frame.memory.binding start).type (Path.parse qualifier).rest) fun reads => ?_
      rw [Step.path_of_bound ((lookup reads _).trans found), same reads]
  | none =>
      refine congr sound (follow registry summaries method sound (firm binding) method.owner
        ((Path.parse qualifier).first :: (Path.parse qualifier).rest)) fun reads => ?_
      rw [Step.path_of_unbound ((lookup reads _).trans found) ((lookup reads _).trans here),
        same reads]

end Paths

/-! ## Other fields -/

namespace Frame

/-- One field of an object is assigned, and no other, though objects may be made up and
freed. -/
structure Alters (owner : Ref) (name : String) (before after : Frame) : Prop where
  length : before.heap.objects.length ≤ after.heap.objects.length
  id : ∀ other < before.heap.objects.length,
    (after.heap.object other).id = (before.heap.object other).id
  isExternal : ∀ other < before.heap.objects.length,
    (after.heap.object other).isExternal = (before.heap.object other).isExternal
  written : before.written ⊆ after.written
  marked : ∀ entry ∈ after.written,
    entry = ((before.heap.object owner).id, name) ∨ entry ∈ before.written
  field : ∀ {other label}, other < before.heap.objects.length → ¬(other = owner ∧ label = name) →
    (after.heap.object other).released = false →
    after.heap.field? other label = before.heap.field? other label

/-- What is read from other fields than one is the same in both frames.  A field that has not
been read in the first is still to be read in the second. -/
structure Elsewhere (context : Context) (owner : Ref) (name : String) (before after : Frame) :
    Prop where
  unread : ∀ other label, ¬(other = owner ∧ label = name) →
    (before.heap.object other).released = false → (after.heap.object other).released = false →
    before.isUnread other label = true → after.isUnread other label = true
  known : ∀ other label, ¬(other = owner ∧ label = name) →
    (before.heap.object other).released = false → (after.heap.object other).released = false →
    before.isUnread other label = false → ∀ ownerType type,
    context.registry.fieldType ownerType label = .ok type → ∃ found,
      Step.field context (some other) ownerType label before = .ok (found, type) before ∧
      Step.field context (some other) ownerType label after = .ok (found, type) after

/-- The first look at a field decides what it holds until it is assigned.  It then holds what was
stored, and whatever happens later, no object is made up for it. -/
structure Settles (context : Context) (owner : Ref) (ownerType name type : String)
    (frame : Frame) : Prop where
  looked : ∃ found next,
    Step.field context (some owner) ownerType name frame = .ok (found, type) next ∧
    Step.field context (some owner) ownerType name next = .ok (found, type) next ∧
    Elsewhere context owner name frame next
  stored : ∀ {pos value next},
    Step.store context pos (some owner) ownerType name value frame = .ok () next →
    Step.field context (some owner) ownerType name next = .ok (value, type) next ∧
    Elsewhere context owner name frame next
  kept : ∀ {pos value next},
    Step.store context pos (some owner) ownerType name value frame = .ok () next →
    ∀ moves later, Move.perform context next moves = later →
    Step.field context (some owner) ownerType name later =
      .ok (later.heap.field? owner name, type) later

namespace Alters

variable {before after : Frame}

theorem refl (frame : Frame) : Alters owner name frame frame where
  length := Nat.le_refl _
  id _ _ := rfl
  isExternal _ _ := rfl
  written := List.Subset.refl _
  marked _ member := .inr member
  field _ _ _ := rfl

/-- A field is set in a heap that has grown. -/
theorem of_setField {value : Option Ref} {grown : Heap}
    (length : before.heap.objects.length ≤ grown.objects.length)
    (same : ∀ other < before.heap.objects.length, grown.object other = before.heap.object other)
    (set : Heap.setField (some owner) name value grown = .ok () after.heap)
    (written : after.written = ((before.heap.object owner).id, name) :: before.written) :
    Alters owner name before after := by
  have decays := Heap.setField_decays set
  have inside := Heap.lt_of_not_released (Heap.not_released_of_setField set)
  constructor
  · rw [decays.length, Heap.length_objects_update]
    exact length
  · intro other within
    rw [(decays.object other).id, Heap.id_assign, same other within]
  · intro other within
    rw [(decays.object other).isExternal, Heap.isExternal_assign, same other within]
  · rw [written]
    exact List.subset_cons_self _ _
  · intro entry member
    rw [written] at member
    exact List.mem_cons.1 member
  · intro other label within apart present
    have unchanged : (grown.update owner (.assign name value)).field? other label =
        grown.field? other label := by
      rw [Heap.field?_assign inside, if_neg apart]
    rw [Heap.field?, (decays.object other).fields present]
    refine unchanged.trans ?_
    rw [Heap.field?, same other within, ← Heap.field?]

/-- Whether another field has been read does not change. -/
theorem isUnread_eq (alters : Alters owner name before after) (indexed : before.heap.Indexed)
    (within : owner < before.heap.objects.length) {other : Ref} {label : String}
    (apart : ¬(other = owner ∧ label = name))
    (there : (before.heap.object other).released = false)
    (present : (after.heap.object other).released = false) :
    after.isUnread other label = before.isUnread other label := by
  have inside := Heap.lt_of_not_released there
  have settled : after.isSettled other label = before.isSettled other label := by
    have listed : after.written.contains ((before.heap.object other).id, label) =
        before.written.contains ((before.heap.object other).id, label) := by
      rw [Bool.eq_iff_iff, List.contains_iff_mem, List.contains_iff_mem]
      refine ⟨fun member => ?_, fun member => alters.written member⟩
      rcases alters.marked _ member with same | earlier
      · obtain ⟨same, label⟩ := Prod.mk.inj same
        exact (apart ⟨indexed.injective inside within same, label⟩).elim
      · exact earlier
    rw [isSettled, isSettled, alters.id other inside, alters.isExternal other inside, listed]
  have one : ¬before.heap.objects.length ≤ other := Nat.not_le.2 inside
  have two : ¬after.heap.objects.length ≤ other :=
    Nat.not_le.2 (Nat.lt_of_lt_of_le inside alters.length)
  rw [isUnread, isUnread, alters.field inside apart present, settled, decide_eq_false one,
    decide_eq_false two]

variable {registry : Registry} {summaries : Summaries} {method : Method}

/-- What happens to one field makes no difference to the others. -/
theorem elsewhere (alters : Alters owner name before after) (indexed : before.heap.Indexed)
    (within : owner < before.heap.objects.length) :
    Elsewhere (.counting registry summaries method) owner name before after := by
  constructor
  · intro other label apart there present unread
    rw [alters.isUnread_eq indexed within apart there present]
    exact unread
  · intro other label apart there present known ownerType type answer
    have after_known := known
    rw [← alters.isUnread_eq indexed within apart there present] at after_known
    refine ⟨_, Step.field_of_known known answer, ?_⟩
    rw [Step.field_of_known after_known answer,
      alters.field (Heap.lt_of_not_released there) apart present]

end Alters

end Frame

/-! ## Assigned fields -/

namespace Move

/-- A move renames no object. -/
theorem id_object (move : Move) (frame : Frame) {ref : Ref}
    (inside : ref < frame.heap.objects.length) :
    ((ending (move.step (.counting registry summaries method) frame)).heap.object ref).id =
      (frame.heap.object ref).id := by
  have grown : ∀ type isExternal,
      ((frame.heap.extended type isExternal).object ref).id = (frame.heap.object ref).id := by
    intro type isExternal
    rw [Heap.object_extended, if_neg (Nat.ne_of_lt inside)]
  cases move with
  | allocate type => exact grown type false
  | materialize owner type name =>
      rw [ending_materialize]
      exact (Heap.id_setField _ _ _ _ ref).trans (grown type true)
  | store pos owner name value =>
      rw [ending_store]
      exact Heap.id_setField _ _ _ _ ref
  | construct pos owner name value =>
      rw [ending_construct]
      exact Heap.id_setField _ _ _ _ ref
  | capture pos receiver callee param argument =>
      rw [ending_capture]
      exact Heap.id_setField _ _ _ _ ref
  | _ => exact ((decays_of_isIdle rfl frame).object ref).id

/-- A move does not take back that a field was written. -/
theorem written_subset (move : Move) (context : Context) (frame : Frame) :
    frame.written ⊆ (ending (move.step context frame)).written := by
  have kept : ∀ {α : Type} {step : Step α}, Elementary step →
      frame.written ⊆ (ending (step frame)).written := fun elementary =>
    (elementary.annotates frame).written
  cases move with
  | allocate type => exact kept (.map _ (.onHeap (Heap.allocate type false)))
  | openScope parent => exact kept (.map _ (.onMemory (Memory.openChild parent)))
  | declare scope name type object => exact kept (.map _ (.onMemory _))
  | materialize owner type name => exact kept (.map _ (.materialize owner type name))
  | store pos owner name value => exact kept (.overwrite pos owner name value)
  | construct pos owner name value => exact kept (.construct pos owner name value)
  | capture pos receiver callee param argument => exact kept (.capture pos receiver _ _ _)
  | taint pos object => exact kept (.taint pos object)
  | returned object => exact kept (.returned object)
  | close | rebind | sweep | drop => exact kept (.onMemory _)
  | note entry => exact kept (.note entry)
  | skip pos construct => exact List.Subset.refl _

/-- A field that has been assigned stays so, whatever is done. -/
theorem isSettled_step (move : Move) (inside : owner < frame.heap.objects.length)
    (settled : frame.isSettled owner name = true) :
    (ending (move.step (.counting registry summaries method) frame)).isSettled owner name =
      true :=
  Frame.Spares.isSettled_mono (move.id_object frame inside)
    ((move.persists frame).isExternal owner inside) (move.written_subset _ frame) settled

theorem isSettled_perform (moves : List Move) (inside : owner < frame.heap.objects.length)
    (settled : frame.isSettled owner name = true) :
    owner < (perform (.counting registry summaries method) frame moves).heap.objects.length ∧
      (perform (.counting registry summaries method) frame moves).isSettled owner name = true := by
  induction moves generalizing frame with
  | nil => exact ⟨inside, settled⟩
  | cons move rest ih =>
      exact ih (Nat.lt_of_lt_of_le inside (move.persists frame).length)
        (move.isSettled_step inside settled)

end Move

/-! ## What fields and paths answer -/

section Answers

variable {context : Context} {ownerType : String}

/-- A field is read, and nothing happens to the others. -/
theorem alters_of_field {place : Option Ref × String}
    (done : Step.field (.counting registry summaries method) (some owner) ownerType name frame =
      .ok place next) : Frame.Alters owner name frame next := by
  rw [Step.field_eq] at done
  obtain ⟨type, _, known, read⟩ := bind_eq_ok done
  rw [(Step.ofRegistry_eq_ok known).2] at read
  obtain ⟨found, _, read, told⟩ := bind_eq_ok read
  cases told
  cases occupied : frame.heap.field? owner name with
  | some occupant =>
      rw [Step.read_of_field occupied] at read
      cases read
      exact .refl frame
  | none =>
      cases settled : frame.isSettled owner name with
      | true =>
          rw [Step.read_of_settled occupied settled] at read
          cases read
          exact .refl frame
      | false =>
          rw [Step.read_of_unsettled occupied settled, map_eq_pure_bind] at read
          obtain ⟨made, _, makes, told⟩ := bind_eq_ok read
          cases told
          rw [Step.materialize_eq] at makes
          obtain ⟨_, stored, sets, told⟩ := bind_eq_ok makes
          cases told
          obtain ⟨heap, set, rfl⟩ := Step.onHeap_eq_ok sets
          have set : Heap.setField (some owner) name (some frame.heap.objects.length)
              (frame.heap.extended type true) = .ok () heap := set
          refine .of_setField ?_ ?_ set rfl
          · rw [Heap.length_objects_extended]
            exact Nat.le_succ _
          · intro other inside
            rw [Heap.object_extended, if_neg (Nat.ne_of_lt inside)]

/-- What a store does. -/
theorem store_eq_ok {pos : Int} {value : Option Ref}
    (done : Step.store (.counting registry summaries method) pos (some owner) ownerType name value
      frame = .ok () next) :
    ∃ heap, Heap.setField (some owner) name value frame.heap = .ok () heap ∧
      next = (((frame.taint pos (some owner)).taint pos value).mark owner name).withHeap heap := by
  rw [Step.store_eq] at done
  obtain ⟨type, _, known, overwrites⟩ := bind_eq_ok done
  rw [(Step.ofRegistry_eq_ok known).2] at overwrites
  dsimp only at overwrites
  rw [Step.overwrite_eq] at overwrites
  obtain ⟨heap, set, rfl⟩ := Step.onHeap_eq_ok overwrites
  rw [Frame.heap_mark, Frame.heap_taint, Frame.heap_taint] at set
  exact ⟨heap, set, rfl⟩

theorem alters_of_store {pos : Int} {value : Option Ref}
    (done : Step.store (.counting registry summaries method) pos (some owner) ownerType name value
      frame = .ok () next) : Frame.Alters owner name frame next := by
  obtain ⟨heap, set, rfl⟩ := store_eq_ok done
  refine .of_setField (Nat.le_refl _) (fun _ _ => rfl) set ?_
  rw [Frame.withHeap, Frame.mark, Frame.heap_taint, Frame.heap_taint]
  cases value <;> rfl

/-- A field that has been assigned holds what was assigned, and is settled. -/
theorem settled_of_store {pos : Int} {value : Option Ref}
    (sound : frame.memory.Sound held opened) (firm : frame.Firm held owner)
    (done : Step.store (.counting registry summaries method) pos (some owner) ownerType name value
      frame = .ok () next) :
    next.heap.field? owner name = value ∧ owner < next.heap.objects.length ∧
      next.isSettled owner name = true := by
  have alters := alters_of_store done
  have inside := Heap.lt_of_not_released (firm.present sound.owned.balanced)
  obtain ⟨heap, set, rfl⟩ := store_eq_ok done
  refine ⟨?_, Nat.lt_of_lt_of_le inside alters.length, ?_⟩
  · have kept := sound_ending_setField sound (some owner) name value
    rw [show Heap.setField (some owner) name value frame.memory.heap = _ from set] at kept
    have still := firm.setField_self kept.owned.balanced set
    exact Heap.field?_setField_self set (still.present kept.owned.balanced)
  · have listed : ((frame.heap.object owner).id, name) ∈
        ((((frame.taint pos (some owner)).taint pos value).mark owner name).withHeap heap).written := by
      rw [Frame.withHeap, Frame.mark, Frame.heap_taint, Frame.heap_taint]
      exact .head _
    rw [Frame.isSettled, alters.id owner inside, List.contains_iff_mem.2 listed, Bool.true_or]

/-- Once a field has been assigned, it stays known. -/
theorem known_of_store {pos : Int} {value : Option Ref}
    (sound : frame.memory.Sound held opened) (firm : frame.Firm held owner)
    (done : Step.store (.counting registry summaries method) pos (some owner) ownerType name value
      frame = .ok () next) (moves : List Move) :
    (Move.perform (.counting registry summaries method) next moves).isUnread owner name =
      false := by
  obtain ⟨_, within, settled⟩ := settled_of_store sound firm done
  obtain ⟨inside, settled⟩ := Move.isSettled_perform moves within settled
  rw [Frame.isUnread, settled, decide_eq_false (Nat.not_le.2 inside)]
  simp

/-- A field of an object of the caller's settles. -/
theorem Frame.Settles.of_firm (sound : frame.memory.Sound held opened)
    (firm : frame.Firm held owner) (answer : registry.fieldType ownerType name = .ok type) :
    frame.Settles (.counting registry summaries method) owner ownerType name type := by
  have inside := Heap.lt_of_not_released (firm.present sound.owned.balanced)
  have only : ∀ ref ∈ some owner, frame.Firm held ref := by
    rintro ref ⟨⟩
    exact firm
  constructor
  · have echoes := Echoes.field registry summaries method sound only ownerType name
    have twice := (Rereads.field registry summaries method sound only ownerType name).twice
    obtain ⟨found, next, done⟩ := (echoes.ok_iff type).2 answer
    rw [done, ending_ok] at twice
    exact ⟨found, next, done, twice, (alters_of_field done).elsewhere sound.indexed inside⟩
  · intro pos value next done
    have same := (settled_of_store sound firm done).1
    have known : next.isUnread owner name = false := known_of_store sound firm done []
    refine ⟨?_, (alters_of_store done).elsewhere sound.indexed inside⟩
    rw [Step.field_of_known known answer, same]
  · rintro pos value next done moves later rfl
    exact Step.field_of_known (known_of_store sound firm done moves) answer

end Answers

/-- State of the caller is made up once, and what is read follows what has been written.

In all states of an evaluation, every field settles of the objects that variables lead to: it has
the same answer when it is read again, and the second time nothing changes.  After a store it has
what was stored, be it nothing; and whatever is done later, reading it makes nothing up.  Neither
a store nor the first look at a field changes what other fields of objects that stay are known to
hold, and none that has not been read is taken to be.  So a path, too, has the same answer when
it is followed again, and changes nothing then. -/
theorem field_settles
    (reaches : Reaches (.counting registry summaries method) lastId scope frame) :
    (∀ owner ownerType name type, frame.heap.Firm frame.memory.bound owner →
      registry.fieldType ownerType name = .ok type →
      frame.Settles (.counting registry summaries method) owner ownerType name type) ∧
    ∀ qualifier,
      (∀ place next,
        Step.path (.counting registry summaries method) scope qualifier frame = .ok place next →
        Step.path (.counting registry summaries method) scope qualifier next = .ok place next) ∧
      ∀ failure next,
        Step.path (.counting registry summaries method) scope qualifier frame =
          .error failure next →
        Step.path (.counting registry summaries method) scope qualifier next =
          .error failure next := by
  obtain ⟨held, opened, grounded⟩ := reaches.grounded
  constructor
  · intro owner ownerType name type leads answer
    obtain ⟨root, member, leads⟩ := leads
    exact .of_firm grounded.sound ⟨root, List.mem_append_left _ member, leads⟩ answer
  · intro qualifier
    obtain ⟨binding, here⟩ := Option.isSome_iff_exists.1 grounded.receiver.isSome_lookup?
    have twice := (Rereads.path registry summaries method grounded.sound here qualifier).twice
    constructor
    · intro place next done
      rwa [done, ending_ok] at twice
    · intro failure next failed
      rwa [failed, ending_error] at twice

/-- What is left when nothing has been stored in the field that is assigned. -/
def Picking.cleared? (arrival : Arrival) : Option Frame :=
  match Step.store evaluation 2 (some arrival.owner) "Cell" "next" none arrival.store.frame with
  | .ok _ next => some next
  | .error _ _ => none

/-- When the assignment is reached, its object is bound, and the field has not been read. -/
theorem Picking.unread_next : ∀ arrival ∈ Picking.arrival?,
    arrival.owner ∈ arrival.store.frame.memory.bound ∧
      arrival.store.frame.isUnread arrival.owner "next" = true ∧
      (Picking.cleared? arrival).isSome = true := by
  decide +kernel

/-- The object that is assigned has a field that has not been read.  It is made up once, and not
at all after nothing has been stored there. -/
theorem field_settles_relink :
    ∃ scope frame owner, Reaches Picking.evaluation 0 scope frame ∧
      frame.heap.Firm frame.memory.bound owner ∧
      Picking.cells.fieldType "Cell" "next" = .ok "Cell" ∧
      frame.isUnread owner "next" = true ∧
      (∃ found next,
        Step.field Picking.evaluation (some owner) "Cell" "next" frame =
          .ok (found, "Cell") next ∧
        Step.field Picking.evaluation (some owner) "Cell" "next" next =
          .ok (found, "Cell") next) ∧
      ∃ next, Step.store Picking.evaluation 2 (some owner) "Cell" "next" none frame =
          .ok () next ∧
        Step.field Picking.evaluation (some owner) "Cell" "next" next =
          .ok (none, "Cell") next := by
  obtain ⟨arrival, found⟩ := Option.isSome_iff_exists.1 Picking.isSome_arrival?
  have reaches := Reaches.visited (Picking.comes_of_arrival? found).store
  obtain ⟨bound, unread, clears⟩ := Picking.unread_next arrival found
  have answer : Picking.cells.fieldType "Cell" "next" = .ok "Cell" := by decide
  have settles := (field_settles reaches).1 arrival.owner "Cell" "next" "Cell" (.of_mem bound) answer
  obtain ⟨object, next, first, again, _⟩ := settles.looked
  refine ⟨_, _, arrival.owner, reaches, .of_mem bound, answer, unread, ⟨object, next, first, again⟩,
    ?_⟩
  unfold Picking.cleared? at clears
  split at clears
  next cleared stores => exact ⟨cleared, stores, (settles.stored stores).1⟩
  next => cases clears

end Eval

end Custody
