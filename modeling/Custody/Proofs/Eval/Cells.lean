import Custody.Proofs.Eval.Upkeep
import Custody.Proofs.Heap.Hands
import Custody.Proofs.Memory.Variables

/-!
# What a path reads

A path starts at a variable and goes from object to object through fields.  As long as none
of these cells is assigned, the path denotes the same object: in the meantime objects may be
made up and freed, but not those on its way, which the variable holds.

An object that stands for state of the caller is made up when it is first read.  What a path
denotes in a frame may therefore be there only in a later one.
-/

namespace Custody

/-- A variable, or a field of an object. -/
inductive Cell where
  | var (binding : BindingId)
  | field (owner : Ref) (name : String)
  deriving DecidableEq

namespace Heap

/-- The object to which fields lead from another. -/
def walk (heap : Heap) : Option Ref → List String → Option Ref
  | object, [] => object
  | none, _ :: _ => none
  | some owner, name :: rest => heap.walk (heap.field? owner name) rest

theorem walk_none (heap : Heap) (names : List String) : heap.walk none names = none := by
  cases names <;> rfl

/-- The fields that are read on the way. -/
def way (heap : Heap) : Option Ref → List String → List Cell
  | some owner, name :: rest => .field owner name :: heap.way (heap.field? owner name) rest
  | _, _ => []

end Heap

namespace Eval

open Code

namespace Frame

/-- The object that a variable or field holds. -/
def content (frame : Frame) : Cell → Option Ref
  | .var binding => (frame.memory.binding binding).object
  | .field owner name => frame.heap.field? owner name

/-- Where a path starts, and the fields that it goes through.  Where no variable has the name
of its first segment, it starts at the receiver. -/
def origin? (frame : Frame) (scope : ScopeId) (qualifier : String) :
    Option (BindingId × List String) :=
  let path := Path.parse qualifier
  match frame.memory.lookup? scope path.first with
  | some binding => some (binding, path.rest)
  | none => (frame.memory.lookup? scope this).map (·, path.first :: path.rest)

/-- The variables and fields that a path reads. -/
def reads (frame : Frame) (scope : ScopeId) (qualifier : String) : List Cell :=
  match frame.origin? scope qualifier with
  | none => []
  | some (binding, names) =>
      .var binding :: frame.heap.way (frame.content (.var binding)) names

/-- Is the object of a field still to be made up? -/
def isUnread (frame : Frame) (owner : Ref) (name : String) : Bool :=
  frame.heap.objects.length ≤ owner ||
    (frame.heap.field? owner name = none && !frame.isSettled owner name)

/-- The object to which fields led from another.  What had not been made up then is found in a
later frame. -/
def walked (before after : Frame) : Option Ref → List String → Option Ref
  | object, [] => object
  | none, _ :: _ => none
  | some owner, name :: rest =>
      walked before after
        (if before.isUnread owner name then after.heap.field? owner name
          else before.heap.field? owner name) rest

/-- The object that a path denoted.  What had not been made up then is found in a later
frame. -/
def denoted (before after : Frame) (scope : ScopeId) (qualifier : String) : Option Ref :=
  match before.origin? scope qualifier with
  | none => none
  | some (binding, names) => before.walked after (before.content (.var binding)) names

/-- What becomes of a frame while no variables and fields but some are assigned. -/
structure Spares (assigned : List Cell) (before after : Frame) : Prop where
  lookup : ∀ scope name, after.memory.lookup? scope name = before.memory.lookup? scope name
  binding : ∀ {binding}, .var binding ∉ assigned →
    after.memory.binding binding = before.memory.binding binding
  length : before.heap.objects.length ≤ after.heap.objects.length
  present : ∀ {owner}, owner < before.heap.objects.length →
    (after.heap.object owner).released = false → (before.heap.object owner).released = false
  settled : ∀ {owner name}, owner < before.heap.objects.length →
    before.isSettled owner name = true → after.isSettled owner name = true
  kept : ∀ {owner name value}, .field owner name ∉ assigned →
    (after.heap.object owner).released = false → before.heap.field? owner name = some value →
    after.heap.field? owner name = some value
  free : ∀ {owner name}, owner < before.heap.objects.length → .field owner name ∉ assigned →
    before.isSettled owner name = true → before.heap.field? owner name = none →
    after.heap.field? owner name = none

namespace Spares

variable {assigned more : List Cell} {before middle after : Frame} {owner : Ref} {name : String}

theorem refl (frame : Frame) : Spares assigned frame frame where
  lookup := fun _ _ => rfl
  binding := fun _ => rfl
  length := Nat.le_refl _
  present := fun _ present => present
  settled := fun _ settled => settled
  kept := fun _ _ found => found
  free := fun _ _ _ free => free

theorem trans (first : Spares assigned before middle) (second : Spares assigned middle after) :
    Spares assigned before after where
  lookup scope name := (second.lookup scope name).trans (first.lookup scope name)
  binding apart := (second.binding apart).trans (first.binding apart)
  length := Nat.le_trans first.length second.length
  present inside present :=
    first.present inside (second.present (Nat.lt_of_lt_of_le inside first.length) present)
  settled inside settled :=
    second.settled (Nat.lt_of_lt_of_le inside first.length) (first.settled inside settled)
  kept apart present found := by
    have inside := Nat.lt_of_lt_of_le (Heap.lt_of_field? found) first.length
    exact second.kept apart present (first.kept apart (second.present inside present) found)
  free inside apart settled free :=
    second.free (Nat.lt_of_lt_of_le inside first.length) apart (first.settled inside settled)
      (first.free inside apart settled free)

theorem mono (spares : Spares assigned before after) (within : assigned ⊆ more) :
    Spares more before after :=
  { spares with
    binding := fun apart => spares.binding fun member => apart (within member)
    kept := fun apart => spares.kept fun member => apart (within member)
    free := fun inside apart => spares.free inside fun member => apart (within member) }

/-! ## Changes of a frame -/

theorem isSettled_mono (id : (after.heap.object owner).id = (before.heap.object owner).id)
    (isExternal : (after.heap.object owner).isExternal = (before.heap.object owner).isExternal)
    (written : before.written ⊆ after.written) (settled : before.isSettled owner name = true) :
    after.isSettled owner name = true := by
  simp only [isSettled, Bool.or_eq_true, List.contains_iff_mem] at settled ⊢
  rw [id, isExternal]
  exact settled.imp_left fun member => written member

/-- The memory of a frame but for its heap stays what it is. -/
theorem lookup?_of_same (scopes : after.memory.scopes = before.memory.scopes)
    (bindings : after.memory.bindings = before.memory.bindings) (scope : ScopeId) (name : String) :
    after.memory.lookup? scope name = before.memory.lookup? scope name :=
  Memory.lookup?_congr scopes (fun binding => by rw [Memory.binding, bindings, Memory.binding])
    scope name

theorem ofDecays (decays : before.heap.Decays after.heap)
    (lookup : ∀ scope name, after.memory.lookup? scope name = before.memory.lookup? scope name)
    (binding : ∀ {binding}, .var binding ∉ assigned →
      after.memory.binding binding = before.memory.binding binding)
    (written : before.written ⊆ after.written) : Spares assigned before after where
  lookup := lookup
  binding := binding
  length := Nat.le_of_eq decays.length.symm
  present _ present := (decays.object _).present present
  settled _ settled := isSettled_mono (decays.object _).id (decays.object _).isExternal written
    settled
  kept _ present found := by
    rw [Heap.field?, (decays.object _).fields present]
    exact found
  free := by
    intro owner name _ _ _ free
    cases occupied : after.heap.field? owner name with
    | none => rfl
    | some value =>
        rw [decays.thins.field? occupied] at free
        cases free

theorem ofSame (memory : after.memory = before.memory) (written : before.written ⊆ after.written) :
    Spares assigned before after := by
  refine ofDecays ?_ (fun _ _ => by rw [memory]) (fun _ => by rw [memory]) written
  rw [Frame.heap, Frame.heap, memory]
  exact .refl _

theorem ofExtended (frame : Frame) (type : String) (isExternal : Bool) :
    Spares [] frame (frame.withHeap (frame.heap.extended type isExternal)) := by
  have same : ∀ {owner}, owner < frame.heap.objects.length →
      (frame.heap.extended type isExternal).object owner = frame.heap.object owner := by
    intro owner inside
    rw [Heap.object_extended, if_neg (Nat.ne_of_lt inside)]
  constructor
  · exact fun _ _ => rfl
  · exact fun _ => rfl
  · rw [heap_withHeap, Heap.length_objects_extended]
    exact Nat.le_succ _
  · intro owner inside present
    rw [heap_withHeap, same inside] at present
    exact present
  · intro owner name inside settled
    refine isSettled_mono ?_ ?_ (List.Subset.refl frame.written) settled
    · rw [heap_withHeap, same inside]
    · rw [heap_withHeap, same inside]
  · intro owner name value _ _ found
    rw [heap_withHeap, Heap.field?_extended]
    exact found
  · intro owner name _ _ _ free
    rw [heap_withHeap, Heap.field?_extended]
    exact free

/-- A field is assigned. -/
theorem ofAssign {value : Option Ref} (inside : owner < before.heap.objects.length)
    (decays : (before.heap.update owner (.assign name value)).Decays after.heap)
    (scopes : after.memory.scopes = before.memory.scopes)
    (bindings : after.memory.bindings = before.memory.bindings)
    (written : before.written ⊆ after.written) : Spares [.field owner name] before after := by
  have elsewhere : ∀ {other label}, Cell.field other label ∉ [Cell.field owner name] →
      (before.heap.update owner (.assign name value)).field? other label =
        before.heap.field? other label := by
    intro other label apart
    rw [Heap.field?_assign inside]
    refine if_neg fun here => apart ?_
    rw [here.1, here.2]
    exact .head _
  constructor
  · exact lookup?_of_same scopes bindings
  · intro binding _
    rw [Memory.binding, bindings, Memory.binding]
  · rw [decays.length, Heap.length_objects_update]
  · intro other _ present
    have before := (decays.object other).present present
    rcases Heap.object_update_cases _ owner (.assign name value) other with same | changed
    · rwa [same] at before
    · rw [changed] at before
      cases value <;> exact before
  · intro other label _ settled
    refine isSettled_mono ?_ ?_ written settled
    · rw [(decays.object other).id, Heap.id_assign]
    · rw [(decays.object other).isExternal, Heap.isExternal_assign]
  · intro other label occupant apart present found
    rw [Heap.field?, (decays.object other).fields present]
    exact (elsewhere apart).trans found
  · intro other label _ apart _ free
    cases occupied : after.heap.field? other label with
    | none => rfl
    | some occupant =>
        have earlier := (elsewhere apart).symm.trans (decays.thins.field? occupied)
        rw [free] at earlier
        cases earlier

/-- To make up the object of a field is not to assign it. -/
theorem unread (spares : Spares [.field owner name] before after)
    (free : before.heap.field? owner name = none)
    (unsettled : before.isSettled owner name = false) : Spares [] before after := by
  have apart : ∀ {other label}, (other = owner → label = name → False) →
      Cell.field other label ∉ [Cell.field owner name] := by
    intro other label apart member
    cases List.mem_singleton.1 member
    exact apart rfl rfl
  refine { spares with
    binding := fun _ => spares.binding (by simp)
    kept := fun _ present found => spares.kept (apart ?_) present found
    free := fun inside _ settled unoccupied => spares.free inside (apart ?_) settled unoccupied }
  · rintro rfl rfl
    rw [free] at found
    cases found
  · rintro rfl rfl
    rw [unsettled] at settled
    cases settled

end Spares

end Frame

/-! ## Reading -/

section Reading

open Eval.Frame

variable {registry : Registry} {summaries : Summaries} {method : Method}
variable {held : List Ref} {opened : List ScopeId} {frame middle next : Frame}
variable {owner : Ref} {type name : String} {scope : ScopeId}

/-- Nothing but reading has happened: the memory is sound, and no object has been released. -/
structure ReadsOnly (held : List Ref) (opened : List ScopeId) (frame next : Frame) : Prop where
  sound : next.memory.Sound held opened
  spares : Spares [] frame next
  still : ∀ {ref}, (frame.heap.object ref).released = false →
    (next.heap.object ref).released = false

namespace ReadsOnly

theorem refl (sound : frame.memory.Sound held opened) : ReadsOnly held opened frame frame :=
  ⟨sound, .refl frame, id⟩

theorem trans (first : ReadsOnly held opened frame middle)
    (second : ReadsOnly held opened middle next) : ReadsOnly held opened frame next :=
  ⟨second.sound, first.spares.trans second.spares,
    fun present => second.still (first.still present)⟩

theorem materialize {made : Ref} (sound : frame.memory.Sound held opened)
    (present : (frame.heap.object owner).released = false)
    (free : frame.heap.field? owner name = none) (unsettled : frame.isSettled owner name = false)
    (done : Step.materialize (.counting registry summaries method) owner type name frame =
      .ok made next) :
    ReadsOnly held opened frame next ∧ next.heap.field? owner name = some made := by
  have inside := Heap.lt_of_not_released present
  rw [Step.materialize_eq] at done
  obtain ⟨_, stored, sets, told⟩ := bind_eq_ok done
  cases told
  obtain ⟨heap, set, rfl⟩ := Step.onHeap_eq_ok sets
  have set : Heap.setField (some owner) name (some frame.heap.objects.length)
      (frame.heap.extended type true) = .ok () heap := set
  have extended : Spares [] frame (Step.extendedFor owner type name frame) :=
    (Spares.ofExtended frame type true).trans
      (.ofSame rfl (List.subset_cons_self _ _))
  have within : owner < (Step.extendedFor owner type name frame).heap.objects.length :=
    Nat.lt_of_lt_of_le inside extended.length
  have kept : { frame.memory with heap }.Sound held opened := by
    rcases (sound.withNew type true).setField (some owner) name
      (some frame.heap.objects.length) with ⟨error, refused, _⟩ | ⟨after, done, sound⟩
    · cases set.symm.trans refused
    · cases set.symm.trans done
      exact sound
  have still : ∀ {ref}, (frame.heap.object ref).released = false →
      (heap.object ref).released = false := by
    intro ref there
    refine Heap.present_of_setField set ?_ ?_ sound.owned.settled ?_
    · rw [Heap.field?_extended]
      exact free
    · rw [Heap.object_extended, if_pos rfl]
      rfl
    · rw [Heap.object_extended, if_neg (Nat.ne_of_lt (Heap.lt_of_not_released there))]
      exact there
  have assigns : Spares [.field owner name] (Step.extendedFor owner type name frame)
      ((Step.extendedFor owner type name frame).withHeap heap) :=
    .ofAssign within (Heap.setField_decays set) rfl rfl (List.Subset.refl _)
  refine ⟨⟨kept, ?_, still⟩, Heap.field?_setField_self set (still present)⟩
  exact ((extended.mono (List.nil_subset _)).trans assigns).unread free unsettled

/-- A field that was read stays what it is. -/
theorem field?_eq (reads : ReadsOnly held opened frame next)
    (present : (frame.heap.object owner).released = false)
    (settled : frame.isUnread owner name = false) :
    next.heap.field? owner name = frame.heap.field? owner name := by
  simp only [isUnread, Bool.or_eq_false_iff, decide_eq_false_iff_not, Nat.not_le] at settled
  cases found : frame.heap.field? owner name with
  | some value => exact reads.spares.kept (by simp) (reads.still present) found
  | none => exact reads.spares.free settled.1 (by simp) (by simpa [found] using settled.2) found

/-- What a field holds is read, and made up if need be. -/
theorem read {found : Option Ref} (sound : frame.memory.Sound held opened)
    (present : (frame.heap.object owner).released = false)
    (done : Step.read (.counting registry summaries method) owner type name frame =
      .ok found next) :
    ReadsOnly held opened frame next ∧ next.heap.field? owner name = found ∧
      next.isUnread owner name = false := by
  have inside := Heap.lt_of_not_released present
  cases occupied : frame.heap.field? owner name with
  | some occupant =>
      rw [Step.read_of_field occupied] at done
      cases done
      exact ⟨.refl sound, occupied, by simp [isUnread, inside, occupied]⟩
  | none =>
      cases settled : frame.isSettled owner name with
      | true =>
          rw [Step.read_of_settled occupied settled] at done
          cases done
          exact ⟨.refl sound, occupied, by simp [isUnread, inside, settled]⟩
      | false =>
          rw [Step.read_of_unsettled occupied settled, map_eq_pure_bind] at done
          obtain ⟨made, _, made_up, told⟩ := bind_eq_ok done
          cases told
          obtain ⟨reads, found⟩ := materialize sound present occupied settled made_up
          have within := Nat.lt_of_lt_of_le inside reads.spares.length
          exact ⟨reads, found, by simp [isUnread, within, found]⟩

theorem field {object : Option Ref} {ownerType : String} {place : Option Ref × String}
    (sound : frame.memory.Sound held opened)
    (present : ∀ ref ∈ object, (frame.heap.object ref).released = false)
    (done : Step.field (.counting registry summaries method) object ownerType name frame =
      .ok place next) :
    ReadsOnly held opened frame next ∧
      place.1 = object.bind (next.heap.field? · name) ∧
      (∀ owner ∈ object, next.isUnread owner name = false) ∧
      ∀ ref ∈ place.1, (next.heap.object ref).released = false := by
  rw [Step.field_eq] at done
  obtain ⟨type, _, known, finish⟩ := bind_eq_ok done
  obtain ⟨_, rfl⟩ := Step.ofRegistry_eq_ok known
  cases object with
  | none =>
      cases finish
      exact ⟨.refl sound, rfl, by simp, by simp⟩
  | some owner =>
      obtain ⟨found, _, read, told⟩ := bind_eq_ok finish
      cases told
      obtain ⟨reads, found, settled⟩ := ReadsOnly.read sound (present owner rfl) read
      refine ⟨reads, found.symm, ?_, ?_⟩
      · rintro _ ⟨⟩
        exact settled
      · rintro ref rfl
        exact reads.sound.owned.balanced.not_released_of_field found

/-- Fields lead to what they were followed to. -/
theorem follow (names : List String) {place last : Option Ref × String}
    (sound : frame.memory.Sound held opened)
    (present : ∀ ref ∈ place.1, (frame.heap.object ref).released = false)
    (done : Step.follow (.counting registry summaries method) place names frame =
      .ok last next) :
    ReadsOnly held opened frame next ∧ next.heap.walk place.1 names = last.1 := by
  induction names generalizing frame place with
  | nil =>
      cases done
      exact ⟨.refl sound, by cases last.1 <;> rfl⟩
  | cons name rest ih =>
      obtain ⟨object, type⟩ := place
      obtain ⟨place, middle, read, done⟩ := bind_eq_ok done
      obtain ⟨first, found, settled, there⟩ := field sound present read
      obtain ⟨onward, walked⟩ := ih first.sound there done
      refine ⟨first.trans onward, ?_⟩
      cases object with
      | none =>
          rw [found, Option.bind_none, Heap.walk_none] at walked
          exact walked
      | some owner =>
          rw [found, Option.bind_some] at walked
          rw [Heap.walk, onward.field?_eq (first.still (present owner rfl)) (settled owner rfl)]
          exact walked

/-- A path is read from its variable on. -/
theorem path {qualifier : String} {place : Option Ref × String}
    (sound : frame.memory.Sound held opened)
    (done : Step.path (.counting registry summaries method) scope qualifier frame =
      .ok place next) :
    ReadsOnly held opened frame next ∧
      ∃ binding names, frame.origin? scope qualifier = some (binding, names) ∧
        next.heap.walk (next.content (.var binding)) names = place.1 := by
  have start : ∃ binding names type, frame.origin? scope qualifier = some (binding, names) ∧
      Step.follow (.counting registry summaries method)
        ((frame.memory.binding binding).object, type) names frame = .ok place next := by
    unfold Step.path at done
    obtain ⟨start, middle, started, followed⟩ := bind_eq_ok done
    obtain ⟨found, _, looked, started⟩ := bind_eq_ok started
    cases looked
    cases known : frame.memory.lookup? scope (Path.parse qualifier).first with
    | some binding =>
        rw [known] at started
        cases started
        exact ⟨binding, _, _, by simp only [origin?, known], followed⟩
    | none =>
        rw [known] at started
        obtain ⟨object, _, received, read⟩ := bind_eq_ok started
        obtain ⟨found, _, looked, received⟩ := bind_eq_ok received
        cases looked
        cases receiver : frame.memory.lookup? scope this with
        | none =>
            rw [receiver] at received
            cases received
        | some binding =>
            rw [receiver] at received
            cases received
            refine ⟨binding, _, method.owner, by simp only [origin?, known, receiver]; rfl, ?_⟩
            rw [Step.follow, bind_of_ok read]
            exact followed
  obtain ⟨binding, names, type, origin, followed⟩ := start
  obtain ⟨reads, walked⟩ := follow names sound
    (fun ref holds => sound.owned.not_released_of_object holds) followed
  refine ⟨reads, binding, names, origin, ?_⟩
  rw [content, reads.spares.binding (by simp)]
  exact walked

end ReadsOnly

end Reading

/-! ## What a path denoted -/

section Denotation

open Eval.Frame

variable {registry : Registry} {summaries : Summaries} {method : Method}
variable {held : List Ref} {opened : List ScopeId} {assigned : List Cell}
variable {ready frame next : Frame} {scope : ScopeId} {qualifier : String}

/-- Fields that have not been assigned lead where they led. -/
theorem walked_eq (spares : Spares assigned ready frame) (owned : frame.memory.Owned held)
    (names : List String) {object : Option Ref}
    (present : ∀ ref ∈ object, (frame.heap.object ref).released = false)
    (unassigned : ∀ cell ∈ frame.heap.way object names, cell ∉ assigned) :
    ready.walked frame object names = frame.heap.walk object names := by
  induction names generalizing object with
  | nil => cases object <;> rfl
  | cons name rest ih =>
      cases object with
      | none => rfl
      | some owner =>
          have same : (if ready.isUnread owner name then frame.heap.field? owner name
              else ready.heap.field? owner name) = frame.heap.field? owner name := by
            have apart := unassigned _ (.head _)
            cases unread : ready.isUnread owner name with
            | true => rfl
            | false =>
                simp only [isUnread, Bool.or_eq_false_iff, decide_eq_false_iff_not,
                  Nat.not_le] at unread
                cases found : ready.heap.field? owner name with
                | some value => exact (spares.kept apart (present owner rfl) found).symm
                | none =>
                    exact (spares.free unread.1 apart (by simpa [found] using unread.2) found).symm
          rw [walked, same, Heap.walk]
          refine ih ?_ fun cell member => unassigned cell (.tail _ member)
          exact fun ref found => owned.balanced.not_released_of_field found

theorem origin?_eq (spares : Spares assigned ready frame) (scope : ScopeId) (qualifier : String) :
    frame.origin? scope qualifier = ready.origin? scope qualifier := by
  simp only [origin?, spares.lookup]

/-- A path denotes what it denoted as long as nothing that it reads has been assigned. -/
theorem denoted_of_path {place : Option Ref × String} (spares : Spares assigned ready frame)
    (sound : frame.memory.Sound held opened)
    (done : Step.path (.counting registry summaries method) scope qualifier frame =
      .ok place next)
    (unassigned : ∀ cell ∈ next.reads scope qualifier, cell ∉ assigned) :
    ready.denoted next scope qualifier = place.1 := by
  obtain ⟨reads, binding, names, origin, walked⟩ := ReadsOnly.path sound done
  have onward : Spares assigned ready next := spares.trans (reads.spares.mono (List.nil_subset _))
  have before := (origin?_eq spares scope qualifier).symm.trans origin
  have after := (origin?_eq onward scope qualifier).trans before
  rw [Frame.reads, after] at unassigned
  have same : ready.content (.var binding) = next.content (.var binding) := by
    rw [content, content, onward.binding (unassigned _ (.head _))]
  have owned := reads.sound.owned
  have present : ∀ ref ∈ next.content (.var binding), (next.heap.object ref).released = false :=
    fun ref holds => owned.not_released_of_object holds
  rw [denoted, before]
  dsimp only
  have others : ∀ cell ∈ next.heap.way (next.content (.var binding)) names, cell ∉ assigned :=
    fun cell member => unassigned cell (.tail _ member)
  rw [same, walked_eq onward owned names present others]
  exact walked

end Denotation

end Eval

end Custody
