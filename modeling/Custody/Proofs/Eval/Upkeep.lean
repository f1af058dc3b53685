import Custody.Proofs.Eval.Entry
import Custody.Proofs.Eval.Invariant
import Custody.Proofs.Memory.Soundness

/-!
# Upkeep

An evaluation keeps its memory sound, so it never releases an object twice.

It keeps the heap tidy as well if no class declares a field under the name of a
capture.  An object whose field is assigned has been read, so something else than its
own fields holds it; a new object that gets its arguments is held by nobody; and what
is captured goes to a field of a name that has not been used before.
-/

namespace Custody

/-- No class declares a field under the name of a capture. -/
def Registry.Unreserved (registry : Registry) : Prop :=
  ∀ owner name type callee param number, registry.fieldType owner name = .ok type →
    name ≠ Eval.Step.captureField callee param number

namespace Heap

variable {heap next : Heap} {held : List Ref} {ref owner : Ref} {name : String}

/-! ## Holders -/

/-- Fields other than its own, or somebody else, hold the object. -/
def HeldBesides (heap : Heap) (ref : Ref) : Prop :=
  (heap.object ref).fields.values.count ref < (heap.object ref).count

theorem count_values_le (heap : Heap) (owner ref : Ref) :
    (heap.object owner).fields.values.count ref ≤ heap.fieldValues.count ref := by
  rcases Nat.lt_or_ge owner heap.objects.length with inside | outside
  · have moved := count_fieldValues_update .bury inside ref
    have buried : (heap.object owner).bury.fields.values = [] := rfl
    rw [buried, List.count_nil] at moved
    omega
  · rw [object_of_le outside]
    exact Nat.zero_le _

theorem heldBesides_of_mem (balanced : heap.Balanced held) (member : ref ∈ held) :
    heap.HeldBesides ref := by
  have counted := balanced.count ref
  have positive := List.count_pos_iff.2 member
  have own := heap.count_values_le ref ref
  unfold references at counted
  unfold HeldBesides
  omega

theorem heldBesides_of_field (balanced : heap.Balanced held)
    (found : heap.field? owner name = some ref) (apart : owner ≠ ref) :
    heap.HeldBesides ref := by
  have inside := lt_of_not_released (balanced.not_released_of_field found)
  -- The owner still owns the object when the fields of the object are left out.
  have moved := count_fieldValues_update .bury inside ref
  have buried : (heap.object ref).bury.fields.values = [] := rfl
  have owns : (heap.update ref .bury).Owns owner ref := by
    refine ⟨name, ?_⟩
    rw [field?, object_update_of_ne apart]
    exact found
  have positive := List.count_pos_iff.2 (mem_fieldValues_of_owns owns)
  have counted := balanced.count ref
  rw [buried, List.count_nil] at moved
  unfold references at counted
  unfold HeldBesides
  omega

theorem HeldBesides.not_orphans (besides : heap.HeldBesides owner) (value : Option Ref) :
    ¬heap.Orphans (some owner) name value := by
  rintro ⟨_, _, ⟨⟩, _, _, _, _, self, single⟩
  have own := List.count_pos_iff.2 (mem_values_iff_owns.2 ⟨name, self⟩)
  unfold HeldBesides at besides
  omega

/-- Nobody holds an object whose count is zero. -/
theorem Balanced.count_eq_zero_iff (balanced : heap.Balanced held) (settled : heap.pending = []) :
    (heap.object ref).count = 0 ↔ ref ∉ held ∧ ∀ owner, ¬heap.Owns owner ref := by
  have counted := balanced.count ref
  rw [references, settled, List.count_nil] at counted
  rw [counted]
  constructor
  · intro none
    refine ⟨List.count_eq_zero.1 (by omega), fun owner owns => ?_⟩
    have positive := List.count_pos_iff.2 (mem_fieldValues_of_owns owns)
    omega
  · rintro ⟨free, unowned⟩
    have fields : heap.fieldValues.count ref = 0 := by
      refine List.count_eq_zero.2 fun member => ?_
      obtain ⟨owner, owns⟩ := exists_owner_of_mem_fieldValues member
      exact unowned owner owns
    rw [List.count_eq_zero.2 free, fields]

theorem field?_of_setField {value : Option Ref} {other occupant : Ref} {label : String}
    (set : setField (some owner) name value heap = .ok () next)
    (found : next.field? other label = some occupant) :
    heap.field? other label = some occupant ∨
      (other = owner ∧ label = name ∧ value = some occupant) := by
  have inside := lt_of_not_released (not_released_of_setField set)
  have before := (setField_decays set).thins.field? found
  by_cases here : other = owner
  · subst here
    rw [field?, object_update_self inside, Object.find?_fields_assign] at before
    split at before
    next same => exact .inr ⟨rfl, same, before⟩
    next => exact .inl before
  · rw [field?, object_update_of_ne here] at before
    exact .inl before

end Heap

namespace Eval

open Code Heap

/-! ## Names of captures -/

/-- The number of a capture can be read off the name of its field. -/
theorem Step.number_of_captureField {callee other : UnitId} {param label : String}
    {number count : Nat}
    (same : captureField callee param number = captureField other label count) :
    number = count := by
  have digits : ∀ number : Nat, ∀ digit ∈ (Nat.toDigits 10 number).reverse,
      (digit != '#') = true := by
    intro number digit member
    have isDigit := Nat.isDigit_of_mem_toDigits (by decide) (by decide) (List.mem_reverse.1 member)
    rw [bne_iff_ne]
    rintro rfl
    cases isDigit
  have last : ∀ (callee : UnitId) (param : String) (number : Nat),
      (captureField callee param number).toList.reverse.takeWhile (· != '#') =
        (Nat.toDigits 10 number).reverse := by
    intro callee param number
    simp only [captureField, String.toList_append, Nat.toString_eq_ofList_toDigits,
      String.toList_ofList, List.reverse_append, List.append_assoc]
    rw [List.takeWhile_append_of_pos (digits number)]
    simp
  have written := last callee param number
  rw [same, last] at written
  have read := congrArg (Nat.ofDigitChars 10 · 0) (List.reverse_inj.1 written)
  rw [Nat.ofDigitChars_ten_toDigits, Nat.ofDigitChars_ten_toDigits] at read
  exact read.symm

/-- The name of no capture. -/
def Uncaptured (name : String) : Prop :=
  ∀ callee param number, name ≠ Step.captureField callee param number

/-- Names that begin with another sign, and numbered ones, are no names of captures. -/
theorem uncaptured_of_head {name : String} (plain : name.toList.head? ≠ some '$') :
    Uncaptured name := by
  rintro callee param number rfl
  apply plain
  simp [Step.captureField]

theorem uncaptured_numbered (index : Nat) : Uncaptured ("$" ++ toString index) := by
  intro callee param number same
  have letters := congrArg String.toList same
  simp only [Step.captureField, String.toList_append, List.append_assoc] at letters
  have digits := List.append_cancel_left letters
  have hash : '#' ∈ (toString index).toList := by
    rw [digits]
    simp
  rw [Nat.toString_eq_ofList_toDigits, String.toList_ofList] at hash
  cases Nat.isDigit_of_mem_toDigits (by decide) (by decide) hash

/-- Names of captures begin with a sign that other names can do without. -/
theorem unreserved_of_names {registry : Registry}
    (plain : ∀ owner ∈ registry.classes.values, ∀ name ∈ owner.fields.keys,
      name.toList.head? ≠ some '$') : registry.Unreserved := by
  rintro owner name type callee param number declared rfl
  unfold Registry.fieldType Registry.lookup at declared
  cases found : registry.classes.find? owner with
  | none =>
      rw [found] at declared
      cases declared
  | some known =>
      rw [found] at declared
      have member : known ∈ registry.classes.values :=
        List.mem_map_of_mem (f := (·.2)) (Table.find?_eq_some_iff.1 found)
      cases typed : known.fields.find? (Step.captureField callee param number) with
      | none =>
          simp only [typed] at declared
          cases declared
      | some type =>
          have listed : Step.captureField callee param number ∈ known.fields.keys :=
            List.mem_map_of_mem (f := (·.1)) (Table.find?_eq_some_iff.1 typed)
          refine plain known member _ listed ?_
          simp [Step.captureField]

/-! ## Tidy evaluations -/

/-- The heap is tidy, captures so far are all that objects hold of themselves under
names of captures, and nobody holds the temporaries. -/
structure Modest (captures : Nat) (temporaries : List Ref) (heap : Heap) : Prop where
  tidy : heap.Tidy
  named : ∀ owner callee param number,
    heap.field? owner (Step.captureField callee param number) = some owner → number ≤ captures
  unheld : ∀ ref ∈ temporaries, ref < heap.objects.length ∧ (heap.object ref).count = 0

namespace Modest

variable {captures : Nat} {temporaries : List Ref} {heap next : Heap} {held : List Ref}

theorem forget {temporary : Ref} (modest : Modest captures (temporary :: temporaries) heap) :
    Modest captures temporaries heap :=
  { modest with unheld := fun ref member => modest.unheld ref (.tail _ member) }

theorem not_mem_of_heldBesides (modest : Modest captures temporaries heap) {ref : Ref}
    (besides : heap.HeldBesides ref) : ref ∉ temporaries := by
  intro member
  have none := (modest.unheld ref member).2
  unfold HeldBesides at besides
  omega

theorem length_not_mem (modest : Modest captures temporaries heap) :
    heap.objects.length ∉ temporaries :=
  fun member => Nat.lt_irrefl _ (modest.unheld _ member).1

theorem extended (modest : Modest captures temporaries heap) (type : String) (isExternal : Bool) :
    Modest captures (heap.objects.length :: temporaries) (heap.extended type isExternal) where
  tidy := modest.tidy.extended type isExternal
  named := by
    intro owner callee param number found
    rw [field?_extended] at found
    exact modest.named owner callee param number found
  unheld := by
    intro ref member
    rw [length_objects_extended, object_extended]
    rcases List.mem_cons.1 member with rfl | earlier
    · rw [if_pos rfl]
      exact ⟨Nat.lt_succ_self _, rfl⟩
    · obtain ⟨inside, none⟩ := modest.unheld ref earlier
      rw [if_neg (Nat.ne_of_lt inside)]
      exact ⟨Nat.lt_succ_of_lt inside, none⟩

theorem setField (modest : Modest captures temporaries heap) {owner : Ref} {name : String}
    {value : Option Ref} {later : Nat}
    (set : Heap.setField (some owner) name value heap = .ok () next)
    (before : heap.Balanced held) (settled : heap.pending = [])
    (fine : ¬heap.Orphans (some owner) name value) (more : captures ≤ later)
    (labelled : value = some owner → ∀ callee param number,
      name = Step.captureField callee param number → number ≤ later)
    (apart : ∀ ref ∈ value, ref ∉ temporaries) : Modest later temporaries next where
  tidy := by
    have kept := modest.tidy.setField fine
    rw [set] at kept
    exact kept
  named := by
    intro other callee param number found
    rcases field?_of_setField set found with same | ⟨rfl, rfl, self⟩
    · exact Nat.le_trans (modest.named other callee param number same) more
    · exact labelled self callee param number rfl
  unheld := by
    intro ref member
    obtain ⟨inside, none⟩ := modest.unheld ref member
    have length : next.objects.length = heap.objects.length :=
      (setField_decays set).length.trans length_objects_update
    refine ⟨by rw [length]; exact inside, ?_⟩
    rcases before.setField settled (some owner) name value with
      ⟨_, refused, _⟩ | ⟨_, done, after, empty⟩
    · rw [set] at refused
      cases refused
    · rw [set] at done
      cases done
      obtain ⟨free, unowned⟩ := (before.count_eq_zero_iff settled).1 none
      refine (after.count_eq_zero_iff empty).2 ⟨free, ?_⟩
      rintro other ⟨label, found⟩
      rcases field?_of_setField set found with same | ⟨_, _, here⟩
      · exact unowned other ⟨label, same⟩
      · exact apart ref here member

theorem shifts {memory next : Memory} {object : Option Ref}
    (modest : Modest captures temporaries memory.heap) (before : memory.Owned held)
    (after : next.Owned held) (shifts : memory.Shifts next object)
    (apart : ∀ ref ∈ object, ref ∉ temporaries) : Modest captures temporaries next.heap where
  tidy := shifts.stable Tidy.stable modest.tidy
  named := by
    intro owner callee param number found
    exact modest.named owner callee param number (shifts.decays.thins.field? found)
  unheld := by
    intro ref member
    obtain ⟨inside, none⟩ := modest.unheld ref member
    refine ⟨by rw [shifts.decays.length]; exact inside, ?_⟩
    obtain ⟨free, unowned⟩ := (before.balanced.count_eq_zero_iff before.settled).1 none
    refine (after.balanced.count_eq_zero_iff after.settled).2 ⟨fun listed => ?_, ?_⟩
    · rcases List.mem_append.1 listed with bound | besides
      · rcases shifts.bound ref bound with earlier | same
        · exact free (List.mem_append_left _ earlier)
        · exact apart ref same member
      · exact free (List.mem_append_right _ besides)
    · rintro owner ⟨name, found⟩
      exact unowned owner ⟨name, shifts.decays.thins.field? found⟩

end Modest

/-! ## Frames -/

/-- Is the cause that an object is released once too often? -/
def Cause.isDoubleRelease : Cause → Bool
  | memory error => error.isDoubleRelease
  | leave errors => errors.any (·.isDoubleRelease)
  | _ => false

/-- The memory of a frame is sound, its parameters and its sink are held besides, and no
objects have been noted as left. -/
structure Upkeep (registry : Registry) (held : List Ref) (opened : List ScopeId)
    (temporaries : List Ref) (frame : Frame) : Prop where
  sound : frame.memory.Sound held opened
  watched : frame.params.map (·.object) ++ [frame.sink] = held
  quiet : ∀ unit live, .objectsLeft unit live ∉ frame.log
  modest : registry.Unreserved → Modest frame.captures temporaries frame.heap

section Steps

variable {α : Type} {registry : Registry} {summaries : Summaries} {method : Method}
variable {held : List Ref} {opened later : List ScopeId} {temporaries others : List Ref}
variable {frame other : Frame}

theorem Upkeep.remarked (upkeep : Upkeep registry held opened temporaries frame)
    (remarked : frame.Remarked other) : Upkeep registry held opened temporaries other where
  sound := by
    rw [remarked.memory]
    exact upkeep.sound
  watched := by
    rw [remarked.objects, remarked.sink]
    exact upkeep.watched
  quiet unit live noted := upkeep.quiet unit live (remarked.log unit live noted)
  modest := by
    rw [remarked.captures, Frame.heap, remarked.memory]
    exact upkeep.modest

theorem Upkeep.withMemory (upkeep : Upkeep registry held opened temporaries frame)
    {memory : Memory} (sound : memory.Sound held later)
    (modest : registry.Unreserved → Modest frame.captures others memory.heap) :
    Upkeep registry held later others { frame with memory } :=
  ⟨sound, upkeep.watched, upkeep.quiet, modest⟩

theorem meets_memory {action : Memory.Action α} {after : α → Frame → Prop}
    (meets : Memory.Meets (fun result memory => after result { frame with memory })
      (action frame.memory)) :
    Meets (·.isDoubleRelease = false) after (Step.onMemory action frame) := by
  unfold Step.onMemory
  cases done : action frame.memory with
  | ok result memory =>
      rw [done] at meets
      exact meets
  | error error memory =>
      rw [done] at meets
      intro cause named
      cases named
      exact meets

/-- An operation on bindings keeps up the frame. -/
theorem Upkeep.shifts {action : Memory.Action α}
    (upkeep : Upkeep registry held opened temporaries frame) (object : Option Ref)
    (apart : ∀ ref ∈ object, registry.Unreserved → ref ∉ temporaries)
    (meets : Memory.Meets (fun _ next => next.Sound held later ∧ frame.memory.Shifts next object)
      (action frame.memory)) :
    Meets (·.isDoubleRelease = false) (fun _ => Upkeep registry held later temporaries)
      (Step.onMemory action frame) := by
  refine meets_memory ?_
  cases done : action frame.memory with
  | error error next =>
      rw [done] at meets
      exact meets
  | ok result next =>
      rw [done] at meets
      exact upkeep.withMemory meets.1 fun unreserved => (upkeep.modest unreserved).shifts
        upkeep.sound.owned meets.1.owned meets.2 fun ref here => apart ref here unreserved

/-- Setting a field keeps up the frame as long as no object gives up itself, its last
holder. -/
theorem Upkeep.setField (upkeep : Upkeep registry held opened temporaries frame) (owner : Ref)
    (name : String) (value : Option Ref) {captures : Nat} (more : frame.captures ≤ captures)
    (fine : registry.Unreserved → ¬frame.heap.Orphans (some owner) name value)
    (labelled : registry.Unreserved → value = some owner → ∀ callee param number,
      name = Step.captureField callee param number → number ≤ captures)
    (apart : ∀ ref ∈ value, registry.Unreserved → ref ∉ temporaries) :
    Meets (·.isDoubleRelease = false) (fun _ => Upkeep registry held opened temporaries)
      (Step.onHeap (Discipline.counting.setField (some owner) name value)
        { frame with captures }) := by
  have balanced := upkeep.sound.owned.balanced
  have settled := upkeep.sound.owned.settled
  rcases upkeep.sound.setField (some owner) name value with ⟨error, refused, use⟩ | ⟨heap, set, sound⟩
  · have refused : Discipline.counting.setField (some owner) name value
        ({ frame with captures } : Frame).heap = _ := refused
    rw [Step.onHeap_of_error refused]
    intro cause named
    cases named
    simp [Cause.isDoubleRelease, Memory.Error.isDoubleRelease, Memory.Error.causes, use]
  · have done : Discipline.counting.setField (some owner) name value
        ({ frame with captures } : Frame).heap = _ := set
    rw [Step.onHeap_of_ok done]
    refine ⟨sound, upkeep.watched, upkeep.quiet, fun unreserved => ?_⟩
    exact (upkeep.modest unreserved).setField set balanced settled (fine unreserved) more
      (labelled unreserved) fun ref here => apart ref here unreserved

theorem Upkeep.extended (upkeep : Upkeep registry held opened temporaries frame) (type : String)
    (isExternal : Bool) :
    Upkeep registry held opened (frame.heap.objects.length :: temporaries)
      (frame.withHeap (frame.heap.extended type isExternal)) :=
  upkeep.withMemory (upkeep.sound.withNew type isExternal) fun unreserved =>
    (upkeep.modest unreserved).extended type isExternal

/-- What is put into a free field as soon as it is made is held by that field. -/
theorem heldBesides_new {heap next : Heap} {owner : Ref} {type name : String}
    (inside : owner < heap.objects.length) (free : heap.field? owner name = none)
    (settled : heap.pending = [])
    (set : Heap.setField (some owner) name (some heap.objects.length) (heap.extended type true) =
      .ok () next) : next.HeldBesides heap.objects.length := by
  have made : (heap.extended type true).object heap.objects.length =
      .fresh (heap.lastId + 1) type true := by rw [object_extended, if_pos rfl]
  have present := not_released_of_setField set
  rw [setField_of_free present (by rw [field?_extended]; exact free) (by rw [made]; rfl) settled]
    at set
  cases set
  have stored : (((heap.extended type true).update owner (.withField name heap.objects.length)).update
      heap.objects.length .raise).object heap.objects.length =
      (Object.fresh (heap.lastId + 1) type true).raise := by
    rw [object_update_self (by simp), object_update_of_ne (Nat.ne_of_gt inside), made]
  unfold HeldBesides
  rw [stored]
  exact Nat.zero_lt_one

theorem Upkeep.materialize (upkeep : Upkeep registry held opened temporaries frame) {owner : Ref}
    {name : String} (type : String) (free : frame.heap.field? owner name = none)
    (readable : registry.Unreserved → frame.heap.HeldBesides owner) :
    Meets (·.isDoubleRelease = false)
      (fun made next => Upkeep registry held opened temporaries next ∧
        (registry.Unreserved → next.heap.HeldBesides made))
      (Step.materialize (.counting registry summaries method) owner type name frame) := by
  have inside : registry.Unreserved → owner < frame.heap.objects.length := by
    intro unreserved
    refine Nat.lt_of_not_le fun outside => ?_
    have besides := readable unreserved
    rw [HeldBesides, object_of_le outside] at besides
    exact Nat.not_lt_zero _ besides
  have marked := upkeep.remarked (.mark frame owner name)
  have extended : Upkeep registry held opened temporaries
      (Step.extendedFor owner type name frame) :=
    { marked.extended type true with
      modest := fun unreserved => ((marked.extended type true).modest unreserved).forget }
  have unoccupied : (Step.extendedFor owner type name frame).heap.field? owner name = none := by
    rw [Step.extendedFor, Frame.heap_withHeap, field?_extended]
    exact free
  have kept : Meets (·.isDoubleRelease = false) (fun _ => Upkeep registry held opened temporaries)
      (Step.onHeap (Discipline.counting.setField (some owner) name (some frame.heap.objects.length))
        (Step.extendedFor owner type name frame)) := by
    refine extended.setField owner name _ (Nat.le_refl _) ?_ ?_ ?_
    · rintro _ ⟨_, _, ⟨⟩, _, _, _, _, self, _⟩
      rw [unoccupied] at self
      cases self
    · rintro unreserved ⟨⟩
      exact absurd (inside unreserved) (Nat.lt_irrefl _)
    · rintro ref ⟨⟩ unreserved
      exact (upkeep.modest unreserved).length_not_mem
  rw [Step.materialize_eq]
  cases set : Discipline.counting.setField (some owner) name (some frame.heap.objects.length)
      (Step.extendedFor owner type name frame).heap with
  | error error heap =>
      rw [Step.onHeap_of_error set] at kept
      rw [bind_of_error (Step.onHeap_of_error set)]
      exact kept
  | ok _ heap =>
      rw [Step.onHeap_of_ok set] at kept
      rw [bind_of_ok (Step.onHeap_of_ok set)]
      exact ⟨kept, fun unreserved =>
        heldBesides_new (inside unreserved) free upkeep.sound.owned.settled set⟩

theorem Upkeep.read (upkeep : Upkeep registry held opened temporaries frame) {owner : Ref}
    (type name : String) (readable : registry.Unreserved → frame.heap.HeldBesides owner) :
    Meets (·.isDoubleRelease = false)
      (fun found next => Upkeep registry held opened temporaries next ∧
        ∀ object ∈ found, registry.Unreserved → next.heap.HeldBesides object)
      (Step.read (.counting registry summaries method) owner type name frame) := by
  cases found : frame.heap.field? owner name with
  | some occupant =>
      rw [Step.read_of_field found]
      refine ⟨upkeep, ?_⟩
      rintro object ⟨⟩ unreserved
      by_cases same : owner = occupant
      · rw [← same]
        exact readable unreserved
      · exact heldBesides_of_field upkeep.sound.owned.balanced found same
  | none =>
      cases settled : frame.isSettled owner name with
      | true =>
          rw [Step.read_of_settled found settled]
          exact ⟨upkeep, by simp⟩
      | false =>
          rw [Step.read_of_unsettled found settled]
          have made : Ensures (·.isDoubleRelease = false) (· = frame)
              (fun made next => Upkeep registry held opened temporaries next ∧
                (registry.Unreserved → next.heap.HeldBesides made))
              (Step.materialize (.counting registry summaries method) owner type name) := by
            rintro _ rfl
            exact upkeep.materialize type found readable
          refine made.map (fun object next holds => ⟨holds.1, ?_⟩) frame rfl
          rintro _ ⟨⟩
          exact holds.2

/-- An object whose field is assigned is held by something else than that field. -/
theorem Upkeep.overwrite (upkeep : Upkeep registry held opened temporaries frame) (pos : Int)
    {owner : Ref} {ownerType name type : String} {value : Option Ref}
    (declared : registry.fieldType ownerType name = .ok type)
    (readable : registry.Unreserved → frame.heap.HeldBesides owner)
    (apart : ∀ ref ∈ value, registry.Unreserved → ref ∉ temporaries) :
    Meets (·.isDoubleRelease = false) (fun _ => Upkeep registry held opened temporaries)
      (Step.overwrite (.counting registry summaries method) pos owner name value frame) := by
  rw [Step.overwrite_eq]
  have marked := upkeep.remarked (((Frame.Remarked.taint frame pos (some owner)).trans
    (.taint _ pos value)).trans (.mark _ owner name))
  refine marked.setField owner name value (Nat.le_refl _) ?_ ?_ apart
  · intro unreserved
    rw [Frame.heap_mark, Frame.heap_taint, Frame.heap_taint]
    exact (readable unreserved).not_orphans value
  · intro unreserved _ callee param number same
    exact absurd same (unreserved ownerType name type callee param number declared)

/-- A new object that gets an argument is held by nobody. -/
theorem Upkeep.construct (upkeep : Upkeep registry held opened temporaries frame) (pos : Int)
    {owner value : Ref} (name : String) (inHand : owner ∈ temporaries)
    (apart : registry.Unreserved → value ∉ temporaries) :
    Meets (·.isDoubleRelease = false) (fun _ => Upkeep registry held opened temporaries)
      (Step.construct (.counting registry summaries method) pos owner name value frame) := by
  rw [Step.construct_eq]
  have marked := upkeep.remarked (.taint frame pos (some value))
  refine marked.setField owner name (some value) (Nat.le_refl _) ?_ ?_ ?_
  · rintro unreserved ⟨_, _, ⟨⟩, _, _, _, _, _, single⟩
    rw [((marked.modest unreserved).unheld owner inHand).2] at single
    cases single
  · rintro unreserved ⟨⟩
    exact absurd inHand (apart unreserved)
  · rintro ref ⟨⟩
    exact apart

/-- What is captured goes to a field of a number that no capture has had before. -/
theorem Upkeep.capture (upkeep : Upkeep registry held opened temporaries frame) (pos : Int)
    (receiver : Option Ref) (callee : UnitId) (param : String) {argument : Ref}
    (apart : registry.Unreserved → argument ∉ temporaries) :
    Meets (·.isDoubleRelease = false) (fun _ => Upkeep registry held opened temporaries)
      (Step.capture (.counting registry summaries method) pos receiver callee param argument
        frame) := by
  rw [Step.capture_eq]
  have marked := upkeep.remarked ((Frame.Remarked.taint frame pos (some argument)).trans
    (.taint _ pos receiver))
  have captures : ((frame.taint pos (some argument)).taint pos receiver).captures =
      frame.captures := by cases receiver <;> rfl
  refine marked.setField _ _ (some argument) ?_ ?_ ?_ ?_
  · rw [captures]
    exact Nat.le_succ _
  · rintro unreserved ⟨_, _, ⟨⟩, _, _, _, _, self, _⟩
    have used := (marked.modest unreserved).named _ _ _ _ self
    rw [captures] at used
    exact Nat.not_succ_le_self _ used
  · intro _ _ other label number same
    exact Nat.le_of_eq (Step.number_of_captureField same).symm
  · rintro ref ⟨⟩
    exact apart

end Steps

/-- An evaluation keeps up its frame. -/
def upkeep (registry : Registry) (summaries : Summaries) (method : Method) (held : List Ref) :
    Invariant (.counting registry summaries method) where
  Admits := (·.isDoubleRelease = false)
  Holds := Upkeep registry held
  Readable := fun heap ref => registry.Unreserved → heap.HeldBesides ref
  Apart := fun temporaries ref => registry.Unreserved → ref ∉ temporaries
  registry := fun _ => rfl
  notFound := fun _ => rfl
  noMethod := fun _ => rfl
  forget := fun upkeep => { upkeep with modest := fun unreserved => (upkeep.modest unreserved).forget }
  apart_forget := fun apart unreserved member => apart unreserved (.tail _ member)
  apart := fun upkeep readable unreserved =>
    (upkeep.modest unreserved).not_mem_of_heldBesides (readable unreserved)
  remark := fun remarked upkeep => upkeep.remarked remarked
  binding := by
    intro _ _ frame scope name binding upkeep found object held _
    have owned := upkeep.sound.owned
    exact heldBesides_of_mem owned.balanced
      (List.mem_append_left _ (Memory.mem_bound (owned.lt_of_lookup? found) held))
  allocate := by
    intro _ _ type frame upkeep
    rw [Step.onHeap_of_ok (allocate_eq frame.heap type false)]
    exact ⟨upkeep.extended type false, fun unreserved => (upkeep.modest unreserved).length_not_mem⟩
  read := fun _ _ _ type name _ ⟨upkeep, readable⟩ => upkeep.read type name readable
  overwrite := fun _ _ pos _ _ _ _ _ declared apart _ ⟨upkeep, readable⟩ =>
    upkeep.overwrite pos declared readable apart
  construct := fun _ _ pos _ name _ inHand apart _ upkeep => upkeep.construct pos name inHand apart
  capture := fun _ _ pos receiver callee param _ apart _ upkeep =>
    upkeep.capture pos receiver callee param apart
  openChild := by
    intro opened temporaries scope frame upkeep
    exact upkeep.withMemory (upkeep.sound.openScope _) upkeep.modest
  close := by
    intro opened temporaries scope frame upkeep
    refine upkeep.shifts none (by simp) ?_
    obtain ⟨next, done, kept⟩ := upkeep.sound.close
    rw [show Memory.close _ scope frame.memory = _ from done]
    exact kept
  declare := by
    intro opened temporaries scope name type object member apart frame upkeep
    exact upkeep.shifts object apart (upkeep.sound.declare member name type object)
  rebind := by
    intro opened temporaries scope name binding object apart frame ⟨upkeep, found⟩
    exact upkeep.shifts object apart (upkeep.sound.rebind found object)
  sweep := by
    intro opened temporaries frame upkeep
    refine upkeep.shifts none (by simp) ?_
    obtain ⟨heap, swept, kept⟩ := upkeep.sound.sweep
    have done : Memory.onHeap .heap Discipline.counting.sweep frame.memory =
        .ok () { frame.memory with heap } := by
      simp only [Memory.onHeap, Discipline.counting, swept]
    rw [show Memory.onHeap .heap _ frame.memory = _ from done]
    exact kept

/-- What calls are answered plays no part in this. -/
theorem answersAll_upkeep (registry : Registry) (summaries : Summaries) (method : Method)
    (held : List Ref) (nodes : List Node) :
    (upkeep registry summaries method held).AnswersAll nodes := by
  intro _ _ _ _ _ _
  exact ⟨fun _ => rfl, fun _ _ _ _ => rfl, fun _ _ _ => rfl⟩

end Eval

end Custody
