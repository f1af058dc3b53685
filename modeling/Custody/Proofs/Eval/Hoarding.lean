import Custody.Proofs.Eval.Entry
import Custody.Proofs.Eval.Simulation
import Custody.Proofs.Heap.Ledger
import Custody.Proofs.Memory.Hoarding

/-!
# Evaluating without freeing

Counting references cannot be seen in what the evaluation of a unit finds out.
Wherever the evaluation that counts succeeds, the one that never frees anything
goes the same way: it binds the same objects to the same names, and it finds the
same objects in the fields of all objects that the first one has not released.

An object that is read is held by a binding or a field, so it is not released.
What reaches an object is asked of the receiver and of the parameters only.  The
caller holds the parameters; the receiver is held by its binding, which no body
can rebind, unless a parameter has taken its name from it: then it is released at
once and owns nothing.
-/

namespace Custody.Eval

open Code Heap

variable {memory next : Memory} {shadow : Heap} {receiver : Ref} {held : List Ref}

/-- A memory with a shadow.  The receiver stays bound, or it is gone and owns
nothing. -/
structure Guards (memory : Memory) (shadow : Heap) (receiver : Ref) (held : List Ref) : Prop where
  hoarded : memory.Hoarded shadow held
  scopes : 0 < memory.scopes.length
  receiver : memory.Keeps this receiver ∨ memory.heap.Spent shadow receiver

namespace Guards

/-- From what the caller holds, and from the receiver, chains lead to the same
objects. -/
theorem leads_iff (guards : Guards memory shadow receiver held) {root object : Ref}
    (watched : root = receiver ∨ root ∈ held) :
    shadow.Leads root object ↔ memory.heap.Leads root object := by
  have owned := guards.hoarded.owned
  rcases watched with rfl | member
  · rcases guards.receiver with keeps | spent
    · exact guards.hoarded.shadowed.leads_iff owned.balanced
        (owned.not_released_of_bound keeps.inside keeps.object)
    · exact spent.leads_iff
  · exact guards.hoarded.shadowed.leads_iff owned.balanced (owned.not_released_of_held member)

theorem openScope (guards : Guards memory shadow receiver held) (enclosing : List ScopeId) :
    Guards (ending (Memory.openScope enclosing memory)) shadow receiver held where
  hoarded := guards.hoarded.openScope enclosing
  scopes := by simp [Memory.openScope]
  receiver := guards.receiver.imp (fun keeps => keeps.openScope enclosing) fun spent => spent

theorem withNew (guards : Guards memory shadow receiver held) (type : String) (isExternal : Bool) :
    Guards (memory.withNew type isExternal) (shadow.extended type isExternal) receiver held where
  hoarded := guards.hoarded.withNew type isExternal
  scopes := guards.scopes
  receiver := guards.receiver.imp (fun keeps => keeps.ofSame rfl rfl)
    fun spent => spent.extended type isExternal

theorem setField (guards : Guards memory shadow receiver held) {owner : Ref} {name : String}
    {value : Option Ref} {heap : Heap}
    (set : Heap.setField (some owner) name value memory.heap = .ok () heap) :
    Guards { memory with heap } (shadow.update owner (.assign name value)) receiver held where
  hoarded := guards.hoarded.setField set
  scopes := guards.scopes
  receiver := guards.receiver.imp (fun keeps => keeps.ofSame rfl rfl) fun spent => spent.setField set

theorem rebind (guards : Guards memory shadow receiver held) {scope : ScopeId} {name : String}
    {binding : BindingId} {object : Option Ref} (other : name ≠ this)
    (found : memory.lookup? scope name = some binding)
    (done : Memory.rebind .counting binding object memory = .ok () next) :
    Guards next shadow receiver held where
  hoarded := guards.hoarded.rebind (guards.hoarded.owned.lt_of_lookup? found) done
  scopes := by
    rw [Memory.scopes_rebind done]
    exact guards.scopes
  receiver := by
    refine guards.receiver.imp (fun keeps => keeps.rebind ?_ done) fun spent => spent.decays ?_
    · rintro rfl
      exact other ((Memory.name_of_lookup? found).symm.trans keeps.name)
    · have decays := Memory.stable_rebind (Decays.stable memory.heap) (.refl _) binding object
      rw [done] at decays
      exact decays

theorem declare (guards : Guards memory shadow receiver held) {scope : ScopeId}
    {name type : String} {binding : BindingId} {object : Option Ref}
    (apart : memory.Keeps this receiver → memory.declaredIn? scope name ≠ some 0)
    (done : Memory.declare .counting scope name type object memory = .ok binding next) :
    Guards next shadow receiver held where
  hoarded := guards.hoarded.declare done
  scopes := by
    rw [Memory.length_scopes_declare done]
    exact guards.scopes
  receiver := by
    refine guards.receiver.imp (fun keeps => keeps.declare (apart keeps) done)
      fun spent => spent.decays ?_
    have decays := Memory.stable_declare (Decays.stable memory.heap) (.refl _) scope name type object
    rw [done] at decays
    exact decays

theorem close (guards : Guards memory shadow receiver held) {scope : ScopeId} (inner : 0 < scope) :
    Guards (ending (Memory.close .counting scope memory)) shadow receiver held where
  hoarded := guards.hoarded.close scope
  scopes := by
    rw [Memory.length_scopes_close]
    exact guards.scopes
  receiver := guards.receiver.imp (fun keeps => keeps.close inner)
    fun spent => spent.decays (Memory.stable_close (Decays.stable memory.heap) (.refl _) scope)

theorem sweep (guards : Guards memory shadow receiver held) :
    ∃ heap, Heap.sweep memory.heap = .ok () heap ∧
      Guards { memory with heap } shadow receiver held := by
  obtain ⟨heap, swept, decays, hoarded⟩ := guards.hoarded.sweep
  exact ⟨heap, swept, hoarded, guards.scopes,
    guards.receiver.imp (fun keeps => keeps.ofSame rfl rfl) fun spent => spent.decays decays⟩

end Guards

/-! ## Frames -/

/-- The heap shadows that of the frame. -/
def Frame.Hoards (frame : Frame) (shadow : Heap) : Prop :=
  Guards frame.memory shadow frame.receiver.object (frame.params.map (·.object) ++ [frame.sink])

/-- The second frame is the first one on a heap that shadows its own. -/
def Shadowing (frame other : Frame) : Prop :=
  ∃ shadow, other = frame.withHeap shadow ∧ frame.Hoards shadow

namespace Frame.Hoards

variable {frame : Frame}

theorem mapTracked (hoards : frame.Hoards shadow) {change : Tracked → Tracked}
    (objects : ∀ tracked, (change tracked).object = tracked.object) :
    (frame.mapTracked change).Hoards shadow := by
  have same : (frame.params.map change).map (·.object) = frame.params.map (·.object) := by
    simp [objects]
  unfold Frame.Hoards Frame.mapTracked
  rw [objects, same]
  exact hoards

theorem taint (hoards : frame.Hoards shadow) (pos : Int) (object : Option Ref) :
    (frame.taint pos object).Hoards shadow := by
  cases object with
  | none => exact hoards
  | some object => exact hoards.mapTracked (Tracked.object_taint frame.heap pos object)

/-- The same is changed whether objects are freed or not. -/
theorem taint_withHeap (hoards : frame.Hoards shadow) (pos : Int) (object : Option Ref) :
    (frame.withHeap shadow).taint pos object = (frame.taint pos object).withHeap shadow := by
  cases object with
  | none => rfl
  | some object =>
      have agree : ∀ tracked ∈ frame.tracked,
          tracked.taint shadow pos object = tracked.taint frame.heap pos object := by
        intro tracked member
        have watched : tracked.object = frame.receiver.object ∨
            tracked.object ∈ frame.params.map (·.object) ++ [frame.sink] := by
          rcases List.mem_cons.1 member with rfl | passed
          · exact .inl rfl
          · exact .inr (List.mem_append_left _ (List.mem_map_of_mem passed))
        have same : shadow.reaches tracked.object object =
            frame.heap.reaches tracked.object object := by
          rw [Bool.eq_iff_iff, reaches_iff, reaches_iff]
          exact hoards.leads_iff watched
        unfold Tracked.taint
        rw [same]
      have receiver := agree frame.receiver (.head _)
      have params : frame.params.map (Tracked.taint shadow pos object) =
          frame.params.map (Tracked.taint frame.heap pos object) :=
        List.map_congr_left fun tracked member => agree tracked (.tail _ member)
      simp only [Frame.taint, Frame.mapTracked, Frame.withHeap, Frame.heap] at receiver params ⊢
      rw [receiver, params]

theorem object (hoards : frame.Hoards shadow) (ref : Ref) :
    (frame.heap.object ref).Shadowed (shadow.object ref) :=
  hoards.hoarded.shadowed.object ref

theorem mark_withHeap (hoards : frame.Hoards shadow) (owner : Ref) (name : String) :
    (frame.withHeap shadow).mark owner name = (frame.mark owner name).withHeap shadow := by
  unfold Frame.mark
  rw [heap_withHeap, (hoards.object owner).id]
  rfl

theorem isSettled_withHeap (hoards : frame.Hoards shadow) (owner : Ref) (name : String) :
    (frame.withHeap shadow).isSettled owner name = frame.isSettled owner name := by
  unfold Frame.isSettled
  rw [heap_withHeap, (hoards.object owner).id, (hoards.object owner).isExternal]
  rfl

end Frame.Hoards

/-! ## Steps -/

/-- Nothing is asked of an evaluation that fails. -/
def hoardingFate : Fate := ⟨fun _ => True, False⟩

variable {frame : Frame}

theorem meets_setField (hoards : frame.Hoards shadow) (owner : Ref) (name : String)
    (value : Option Ref) :
    hoardingFate.Meets (fun _ => Shadowing)
      (Step.onHeap (Discipline.counting.setField (some owner) name value) frame)
      (Step.onHeap (Discipline.hoarding.setField (some owner) name value)
        (frame.withHeap shadow)) := by
  have overwritten : Discipline.hoarding.setField (some owner) name value
      (frame.withHeap shadow).heap = .ok () (shadow.update owner (.assign name value)) := rfl
  rw [Step.onHeap_of_ok overwritten]
  cases set : Discipline.counting.setField (some owner) name value frame.heap with
  | ok _ heap =>
      rw [Step.onHeap_of_ok set]
      exact ⟨_, rfl, shadow.update owner (.assign name value), rfl, hoards.setField set⟩
  | error error heap =>
      rw [Step.onHeap_of_error set]
      exact ⟨trivial, fun impossible => impossible.elim⟩

/-- An operation on the memory that succeeds on the left succeeds on the right. -/
theorem meets_onMemory {α : Type} {left right : Memory.Action α}
    (holds : ∀ result next, left frame.memory = .ok result next →
      right (frame.memory.withHeap shadow) = .ok result (next.withHeap shadow) ∧
        Guards next shadow frame.receiver.object (frame.params.map (·.object) ++ [frame.sink])) :
    hoardingFate.Meets (fun _ => Shadowing) (Step.onMemory left frame)
      (Step.onMemory right (frame.withHeap shadow)) := by
  unfold Step.onMemory
  cases done : left frame.memory with
  | error error next => exact ⟨trivial, fun impossible => impossible.elim⟩
  | ok result next =>
      obtain ⟨also, guards⟩ := holds result next done
      have same : (frame.withHeap shadow).memory = frame.memory.withHeap shadow := rfl
      rw [same, also]
      exact ⟨_, rfl, shadow, rfl, guards⟩

section Read

variable {owner : Ref} {type name : String} {summaries : Summaries} {registry : Registry}
variable {method : Method}

theorem meets_materialize (hoards : frame.Hoards shadow)
    (present : (frame.heap.object owner).released = false)
    (free : frame.heap.field? owner name = none) :
    hoardingFate.Meets
      (fun made next other => Shadowing next other ∧ (next.heap.object made).released = false)
      (Step.materialize (.counting registry summaries method) owner type name frame)
      (Step.materialize ⟨registry, summaries, .hoarding, method⟩ owner type name
        (frame.withHeap shadow)) := by
  have inside := lt_of_not_released present
  let made := frame.heap.objects.length
  have length : shadow.objects.length = made := hoards.hoarded.shadowed.length
  have fresh : ((frame.heap.extended type true).object made).released = false := by
    rw [object_extended, if_pos rfl]
    rfl
  -- The field is free and the object new, so nothing is released here.
  have set : Heap.setField (some owner) name (some made) (frame.heap.extended type true) =
      .ok () (((frame.heap.extended type true).update owner (.withField name made)).update made
        .raise) := by
    refine setField_of_free ?_ ?_ fresh hoards.hoarded.owned.settled
    · rw [object_extended, if_neg (Nat.ne_of_lt inside)]
      exact present
    · rw [field?_extended]
      exact free
  have extended : (Step.extendedFor owner type name frame).Hoards (shadow.extended type true) :=
    hoards.withNew type true
  have across : Step.extendedFor owner type name (frame.withHeap shadow) =
      (Step.extendedFor owner type name frame).withHeap (shadow.extended type true) := by
    unfold Step.extendedFor
    rw [hoards.mark_withHeap]
    rfl
  have overwritten : Discipline.hoarding.setField (some owner) name (some made)
      ((Step.extendedFor owner type name frame).withHeap (shadow.extended type true)).heap =
      .ok () ((shadow.extended type true).update owner (.assign name (some made))) := rfl
  have left : Discipline.counting.setField (some owner) name (some made)
      (Step.extendedFor owner type name frame).heap = _ := set
  rw [Step.materialize_eq, Step.materialize_eq, across, Frame.heap_withHeap, length,
    bind_of_ok (Step.onHeap_of_ok left), bind_of_ok (Step.onHeap_of_ok overwritten)]
  refine ⟨_, rfl, ⟨_, rfl, extended.setField set⟩, ?_⟩
  have raised : ∀ object : Object, object.raise.released = object.released := fun _ => rfl
  rw [Frame.heap_withHeap, object_update_self (by simp [made]), raised]
  rcases object_update_cases (frame.heap.extended type true) owner (.withField name made) made with
    same | changed
  · rw [same]
    exact fresh
  · rw [changed]
    exact fresh

theorem meets_read (hoards : frame.Hoards shadow)
    (present : (frame.heap.object owner).released = false) :
    hoardingFate.Meets
      (fun found next other => Shadowing next other ∧
        ∀ object ∈ found, (next.heap.object object).released = false)
      (Step.read (.counting registry summaries method) owner type name frame)
      (Step.read ⟨registry, summaries, .hoarding, method⟩ owner type name
        (frame.withHeap shadow)) := by
  have same : (frame.withHeap shadow).heap.field? owner name = frame.heap.field? owner name :=
    hoards.hoarded.shadowed.field? present name
  cases found : frame.heap.field? owner name with
  | some occupant =>
      rw [Step.read_of_field found, Step.read_of_field (same.trans found)]
      refine ⟨_, rfl, ⟨shadow, rfl, hoards⟩, ?_⟩
      rintro object ⟨⟩
      exact hoards.hoarded.owned.balanced.not_released_of_field found
  | none =>
      cases settled : frame.isSettled owner name with
      | true =>
          rw [Step.read_of_settled found settled, Step.read_of_settled (same.trans found)
            ((hoards.isSettled_withHeap owner name).trans settled)]
          exact ⟨_, rfl, ⟨shadow, rfl, hoards⟩, fun _ none => by cases none⟩
      | false =>
          rw [Step.read_of_unsettled found settled, Step.read_of_unsettled (same.trans found)
            ((hoards.isSettled_withHeap owner name).trans settled)]
          refine (meets_materialize hoards present found).map fun made next other holds =>
            ⟨holds.1, ?_⟩
          rintro object ⟨⟩
          exact holds.2

end Read

/-- The evaluation that counts references is followed by the one that never frees. -/
def hoarding (registry : Registry) (summaries : Summaries) (method : Method) :
    Simulation (.counting registry summaries method) .hoarding summaries where
  toFate := hoardingFate
  Agree _ := Shadowing
  Readable frame object := (frame.heap.object object).released = false
  Inner scope := 0 < scope
  Attaches _ := True
  Fits _ := True
  lost _ := trivial
  forget agree := agree
  lookup scope name := by
    rintro ⟨shadow, rfl, hoards⟩
    rfl
  binding := by
    rintro _ frame _ scope name binding ⟨shadow, rfl, hoards⟩ found
    refine ⟨rfl, fun object held => ?_⟩
    have owned := hoards.hoarded.owned
    exact owned.not_released_of_bound (owned.lt_of_lookup? found) held
  note _ entry := .modify <| by
    rintro frame _ ⟨shadow, rfl, hoards⟩
    exact ⟨shadow, rfl, hoards⟩
  skip _ pos construct := by
    rintro frame _ ⟨shadow, rfl, hoards⟩
    exact ⟨_, rfl, shadow, rfl, hoards⟩
  taint _ pos object := by
    rintro frame _ ⟨shadow, rfl, hoards⟩
    rw [Step.taint_eq, Step.taint_eq, hoards.taint_withHeap]
    exact ⟨_, rfl, shadow, rfl, hoards.taint pos object⟩
  returned _ object := by
    rintro frame _ ⟨shadow, rfl, hoards⟩
    cases object with
    | none => exact ⟨_, rfl, shadow, rfl, hoards⟩
    | some object =>
        exact ⟨_, rfl, shadow, rfl, hoards.mapTracked (Tracked.object_returned object)⟩
  allocate _ type := by
    rintro frame _ ⟨shadow, rfl, hoards⟩
    have length : shadow.objects.length = frame.heap.objects.length :=
      hoards.hoarded.shadowed.length
    have right : Heap.allocate type false (frame.withHeap shadow).heap =
        .ok frame.heap.objects.length (shadow.extended type false) := by
      rw [Frame.heap_withHeap, allocate_eq, length]
    rw [Step.onHeap_of_ok (allocate_eq frame.heap type false), Step.onHeap_of_ok right]
    exact ⟨_, rfl, _, rfl, hoards.withNew type false⟩
  read _ owner type name _ := by
    rintro frame _ ⟨⟨shadow, rfl, hoards⟩, present⟩
    exact meets_read hoards present
  overwrite _ pos owner name value _ := by
    rintro frame _ ⟨⟨shadow, rfl, hoards⟩, _⟩
    have owner_tainted := hoards.taint pos (some owner)
    have tainted := owner_tainted.taint pos value
    rw [Step.overwrite_eq, Step.overwrite_eq, hoards.taint_withHeap, owner_tainted.taint_withHeap,
      tainted.mark_withHeap]
    have marked : (((frame.taint pos (some owner)).taint pos value).mark owner name).Hoards shadow :=
      tainted
    exact meets_setField marked owner name value
  numbered _ := trivial
  construct _ pos owner name value _ _ := by
    rintro frame _ ⟨shadow, rfl, hoards⟩
    rw [Step.construct_eq, Step.construct_eq, hoards.taint_withHeap]
    exact meets_setField (hoards.taint pos (some value)) owner name (some value)
  capture _ pos receiver callee param argument := by
    rintro frame _ ⟨shadow, rfl, hoards⟩
    have argument_tainted := hoards.taint pos (some argument)
    have tainted := argument_tainted.taint pos receiver
    rw [Step.capture_eq, Step.capture_eq, hoards.taint_withHeap, argument_tainted.taint_withHeap]
    have counted : ({ (frame.taint pos (some argument)).taint pos receiver with
        captures := frame.captures + 1 } : Frame).Hoards shadow := tainted
    exact meets_setField counted _ _ (some argument)
  effects _ _ := .inl rfl
  openChild _ scope := by
    rintro frame _ ⟨shadow, rfl, hoards⟩
    exact ⟨_, rfl, ⟨shadow, rfl, hoards.openScope _⟩, hoards.scopes⟩
  close _ scope inner := by
    rintro frame _ ⟨shadow, rfl, hoards⟩
    refine meets_onMemory fun _ next done => ⟨?_, ?_⟩
    · have closed := Memory.close_hoarding .counting scope frame.memory shadow
      rw [show Memory.close .counting scope frame.memory = _ from done] at closed
      exact closed
    · have guards := Guards.close hoards inner
      rw [show Memory.close .counting scope frame.memory = _ from done] at guards
      exact guards
  declare _ scope name type object inner := by
    rintro frame _ ⟨shadow, rfl, hoards⟩
    refine meets_onMemory fun binding next done => ⟨Memory.declare_hoarding done shadow, ?_⟩
    exact Guards.declare hoards (fun keeps => keeps.declaredIn?_ne inner name) done
  rebind _ scope name binding object other := by
    rintro frame _ ⟨⟨shadow, rfl, hoards⟩, found⟩
    refine meets_onMemory fun _ next done => ⟨Memory.rebind_hoarding done shadow, ?_⟩
    exact Guards.rebind hoards other found done
  sweep _ := by
    rintro frame _ ⟨shadow, rfl, hoards⟩
    obtain ⟨heap, swept, guards⟩ := Guards.sweep hoards
    have idle : Discipline.hoarding.sweep (frame.withHeap shadow).heap = .ok () shadow := rfl
    rw [Step.onHeap_of_ok (show Discipline.counting.sweep frame.heap = _ from swept),
      Step.onHeap_of_ok idle]
    exact ⟨_, rfl, shadow, rfl, guards⟩

/-! ## Entering -/

theorem Bare.references {heap : Heap} (bare : Bare heap) (settled : heap.pending = []) (ref : Ref) :
    heap.references ref = 0 := by
  have unowned : heap.fieldValues.count ref = 0 := by
    refine List.count_eq_zero.2 fun member => ?_
    obtain ⟨object, stored, listed⟩ := List.mem_flatMap.1 member
    obtain ⟨owner, inside, rfl⟩ := List.getElem_of_mem stored
    rw [← object_of_lt inside] at listed
    obtain ⟨name, found⟩ := mem_values_iff_owns.1 listed
    rw [bare owner name] at found
    cases found
  simp [Heap.references, unowned, settled]

/-- While a unit is entered, no object owns another, and the receiver is held by its
own binding alone. -/
structure Entering (memory : Memory) (shadow : Heap) (receiver : Ref) (held : List Ref) : Prop where
  guards : Guards memory shadow receiver held
  isOpen : (memory.scope 0).closed = false
  bare : Bare memory.heap
  shadowBare : Bare shadow
  inside : receiver < memory.heap.objects.length
  besides : receiver ∉ held
  alone : ∀ binding, (memory.binding binding).object = some receiver → binding = 0

namespace Entering

theorem holding (entering : Entering memory shadow receiver held) (type : String)
    (isExternal : Bool) :
    Entering (holding memory type isExternal) (shadow.extended type isExternal) receiver
      (memory.heap.objects.length :: held) where
  guards :=
    have guards := entering.guards.withNew type isExternal
    ⟨guards.hoarded.hold (released_withNew memory type isExternal), guards.scopes,
      guards.receiver.imp (fun keeps => keeps.ofSame rfl rfl)
        fun spent => spent.decays (decays_holding memory type isExternal)⟩
  isOpen := entering.isOpen
  bare := (entering.bare.extended type isExternal).decays (decays_holding memory type isExternal)
  shadowBare := entering.shadowBare.extended type isExternal
  inside := by
    rw [(decays_holding memory type isExternal).length, Memory.withNew, length_objects_extended]
    exact Nat.lt_succ_of_lt entering.inside
  besides := by
    rintro (_ | ⟨_, member⟩)
    · exact absurd entering.inside (Nat.lt_irrefl _)
    · exact entering.besides member
  alone := entering.alone

/-- The binding of the receiver is its only holder. -/
theorem count_eq_one (entering : Entering memory shadow receiver held)
    (keeps : memory.Keeps this receiver) : (memory.heap.object receiver).count = 1 := by
  have owned := entering.guards.hoarded.owned
  have unbound : receiver ∉ (memory.setObject 0 none).bound := by
    intro member
    obtain ⟨binding, listed, holds⟩ := List.mem_flatMap.1 member
    obtain ⟨place, inside, rfl⟩ := List.getElem_of_mem listed
    have here : ((memory.setObject 0 none).binding place).object = some receiver := by
      simpa [Memory.binding, List.getD_eq_getElem?_getD, inside] using holds
    by_cases first : place = 0
    · rw [Memory.setObject, Memory.binding_updateBinding _ _ _ _ keeps.inside, if_pos first] at here
      cases here
    · rw [Memory.binding_setObject_of_ne first] at here
      exact first (entering.alone place here)
  have moved := Memory.count_bound_setObject keeps.inside none receiver
  rw [keeps.object, List.count_eq_zero.2 unbound] at moved
  have counted := owned.balanced.count receiver
  rw [List.count_append, List.count_eq_zero.2 entering.besides,
    entering.bare.references owned.settled] at counted
  simp only [Option.toList_some, List.count_singleton_self, Option.toList_none,
    List.count_nil] at moved
  omega

/-- A parameter that takes the name of the receiver lets it go for good. -/
theorem spent_of_rebind (entering : Entering memory shadow receiver held)
    (keeps : memory.Keeps this receiver) {object : Ref} (apart : receiver ≠ object)
    (done : Memory.rebind .counting 0 (some object) memory = .ok () next) :
    next.heap.Spent shadow receiver := by
  have present := entering.guards.hoarded.owned.not_released_of_bound keeps.inside keeps.object
  have decays := Memory.stable_rebind (Decays.stable memory.heap) (.refl _) 0 (some object)
  rw [done] at decays
  refine ⟨?_, ?_, fun name => ⟨entering.bare.decays decays receiver name,
    entering.shadowBare receiver name⟩⟩
  · exact Nat.lt_of_lt_of_eq entering.inside decays.length.symm
  · cases moved : Heap.transfer (memory.binding 0).object (some object) memory.heap with
    | ok _ heap =>
        rw [Memory.rebind_of_ok moved] at done
        cases done
        rw [keeps.object] at moved
        exact released_of_transfer present (entering.count_eq_one keeps)
          (fun same => apart (Option.some.inj same)) moved
    | error error heap =>
        rw [Memory.rebind_of_error moved] at done
        cases done

theorem retype (entering : Entering memory shadow receiver held) (binding : BindingId)
    (type : String) : Entering (memory.retype binding type) shadow receiver held where
  guards :=
    have guards := entering.guards
    ⟨⟨guards.hoarded.shadowed, guards.hoarded.owned.updateBinding (fun held => { held with type }) (fun _ => rfl) binding,
      guards.hoarded.indexed⟩, guards.scopes,
      guards.receiver.imp (fun keeps => keeps.retype binding type) fun spent => spent⟩
  isOpen := entering.isOpen
  bare := entering.bare
  shadowBare := entering.shadowBare
  inside := entering.inside
  besides := entering.besides
  alone := by
    intro other holds
    refine entering.alone other ?_
    rw [← (Memory.binding_retype memory binding other type).2]
    exact holds

theorem declare (entering : Entering memory shadow receiver held) {name type : String}
    {binding : BindingId} {object : Ref} (apart : receiver ≠ object)
    (done : Memory.declare .counting 0 name type (some object) memory = .ok binding next) :
    Entering next shadow receiver held := by
  have decays := Memory.stable_declare (Decays.stable memory.heap) (.refl _) 0 name type
    (some object)
  rw [done] at decays
  refine ⟨?_, ?_, entering.bare.decays decays, entering.shadowBare, ?_, entering.besides, ?_⟩
  · by_cases renamed : memory.Keeps this receiver ∧ memory.declaredIn? 0 name = some 0
    · obtain ⟨keeps, first⟩ := renamed
      refine ⟨entering.guards.hoarded.declare done, ?_, .inr ?_⟩
      · rw [Memory.length_scopes_declare done]
        exact entering.guards.scopes
      · obtain ⟨_, ⟨found, rebound⟩ | ⟨free, _⟩⟩ := Memory.declare_eq_ok done
        · rw [first] at found
          cases found
          exact (entering.retype 0 type).spent_of_rebind (keeps.retype 0 type) apart rebound
        · rw [first] at free
          cases free
    · exact entering.guards.declare (fun keeps first => renamed ⟨keeps, first⟩) done
  · rw [Memory.closed_declare done]
    exact entering.isOpen
  · exact Nat.lt_of_lt_of_eq entering.inside decays.length.symm
  · intro other holds
    exact entering.alone other (Memory.object_of_declare done holds
      fun same => apart (Option.some.inj same).symm)

theorem congr {others : List Ref} (entering : Entering memory shadow receiver held)
    (same : ∀ ref, held.count ref = others.count ref) : Entering memory shadow receiver others :=
  have hoarded := entering.guards.hoarded
  { entering with
    guards :=
      ⟨⟨hoarded.shadowed, hoarded.owned.congr same, hoarded.indexed⟩, entering.guards.scopes,
        entering.guards.receiver⟩
    besides := by
      rw [← List.count_eq_zero, ← same]
      exact List.count_eq_zero.2 entering.besides }

/-- The receiver of a unit has been bound. -/
theorem opening (method : Method) (lastId : Nat) :
    ∃ binding bound,
      Memory.declare .counting 0 this method.owner (some (opened lastId).heap.objects.length)
        ((opened lastId).withNew method.owner true) = .ok binding bound ∧
      Entering bound ((startingAfter lastId).extended method.owner true)
        (opened lastId).heap.objects.length [] := by
  have hoarded : (opened lastId).Hoarded (.startingAfter lastId) [] :=
    Memory.Hoarded.openScope ⟨.refl _, .ofHeap lastId, .startingAfter lastId⟩ []
  have bare := bare_opened lastId
  have present := released_withNew (opened lastId) method.owner true
  obtain ⟨binding, bound, declared, _, isOpen, decays⟩ :=
    exists_declare_new (hoarded.owned.allocate method.owner true)
      (rfl : (((opened lastId).withNew method.owner true).scope 0).closed = false) this method.owner
      present
  have inside : (opened lastId).heap.objects.length < bound.heap.objects.length := by
    rw [decays.length]
    exact lt_of_not_released present
  refine ⟨binding, bound, declared, ?_⟩
  have kept := (hoarded.withNew method.owner true).declare declared
  obtain ⟨_, ⟨found, _⟩ | ⟨_, heap, _, fresh⟩⟩ := Memory.declare_eq_ok declared
  · cases found
  · cases fresh
    refine ⟨⟨kept, Nat.zero_lt_one, .inl ⟨Nat.zero_lt_one, rfl, rfl, ?_⟩⟩, isOpen,
      (bare.extended method.owner true).decays decays, bare.extended method.owner true, inside,
      List.not_mem_nil, ?_⟩
    · intro scope positive member
      cases scope with
      | zero => exact Nat.lt_irrefl 0 positive
      | succ scope => cases member
    · intro binding holds
      cases binding with
      | zero => rfl
      | succ binding => cases holds

end Entering

/-- Parameters are bound alike whether objects are freed or not. -/
theorem exists_bindParams_hoarding (params : List Param)
    (entering : Entering memory shadow receiver held) :
    ∃ tracked next after, bindParams .counting 0 params memory = .ok tracked next ∧
      bindParams .hoarding 0 params (memory.withHeap shadow) = .ok tracked (next.withHeap after) ∧
      Entering next after receiver (tracked.map (·.object) ++ held) := by
  induction params generalizing memory shadow held with
  | nil => exact ⟨[], memory, shadow, rfl, rfl, entering⟩
  | cons param rest ih =>
      have raised := entering.holding param.type true
      have owned := raised.guards.hoarded.owned
      obtain ⟨binding, bound, declared, _⟩ := exists_declare_new owned raised.isOpen param.name
        param.type (owned.not_released_of_held (.head held))
      have apart : receiver ≠ memory.heap.objects.length := Nat.ne_of_lt entering.inside
      obtain ⟨tracked, next, after, done, also, last⟩ := ih (raised.declare apart declared)
      have length : shadow.objects.length = memory.heap.objects.length :=
        entering.guards.hoarded.shadowed.length
      have allocated : Memory.onHeap .heap (Heap.allocate param.type true)
          (memory.withHeap shadow) = .ok memory.heap.objects.length
            ((holding memory param.type true).withHeap (shadow.extended param.type true)) := by
        rw [← length]
        rfl
      refine ⟨.new param.name memory.heap.objects.length param.isValue :: tracked, next, after,
        ?_, ?_, last.congr fun ref => ?_⟩
      · rw [bindParams, bind_of_ok (memory.allocate_withNew .heap param.type true),
          bind_of_ok (ref_withNew memory param.type true), bind_of_ok declared, bind_of_ok done]
        rfl
      · rw [bindParams, bind_of_ok allocated, bind_of_ok (rfl : Memory.onHeap .heap _ _ = .ok () _),
          bind_of_ok (Memory.declare_hoarding declared _), bind_of_ok also]
        rfl
      · simp only [List.map_cons, List.count_append, List.count_cons, Tracked.new, List.cons_append]
        omega

/-- A unit is entered alike whether objects are freed or not.  No object owns another then. -/
theorem exists_enter_hoarding (method : Method) (lastId : Nat) :
    ∃ entry memory shadow,
      enter .counting method (.ofHeap (.startingAfter lastId)) = .ok entry memory ∧
      enter .hoarding method (.ofHeap (.startingAfter lastId)) =
        .ok entry (memory.withHeap shadow) ∧
      (entry.frame memory).Hoards shadow ∧ Bare shadow := by
  obtain ⟨binding, bound, declared, entering⟩ := Entering.opening method lastId
  have length : ((startingAfter lastId).extended method.owner true).objects.length =
      bound.heap.objects.length := entering.guards.hoarded.shadowed.length
  have allocated : Memory.onHeap .heap (Heap.allocate "" false)
      (bound.withHeap ((startingAfter lastId).extended method.owner true)) =
      .ok bound.heap.objects.length ((holding bound "" false).withHeap
        (((startingAfter lastId).extended method.owner true).extended "" false)) := by
    rw [← length]
    rfl
  have received : Memory.declare .hoarding 0 this method.owner
      (some (opened lastId).heap.objects.length) ((opened lastId).withNew method.owner true) =
      .ok binding (bound.withHeap ((startingAfter lastId).extended method.owner true)) :=
    Memory.declare_hoarding declared _
  obtain ⟨params, next, after, done, also, last⟩ :=
    exists_bindParams_hoarding method.params (entering.holding "" false)
  refine ⟨⟨.new this 0 method.decl.valueReceiver, bound.heap.objects.length, params, 0⟩, next,
    after, ?_, ?_, last.guards, last.shadowBare⟩
  · rw [enter, bind_of_ok (openRoot_eq lastId),
      bind_of_ok ((opened lastId).allocate_withNew .heap method.owner true), bind_of_ok declared,
      bind_of_ok (bound.allocate_withNew .heap "" false), bind_of_ok (ref_withNew bound "" false),
      bind_of_ok done]
    rfl
  · rw [enter, bind_of_ok (openRoot_eq lastId),
      bind_of_ok ((opened lastId).allocate_withNew .heap method.owner true),
      bind_of_ok received, bind_of_ok allocated,
      bind_of_ok (rfl : Memory.onHeap .heap _ _ = .ok () _), bind_of_ok also]
    rfl

/-! ## Units -/

theorem runAll_of_ok {actions : List (Memory.Action Unit)}
    (succeed : ∀ action ∈ actions, ∀ memory, ∃ next, action memory = .ok () next)
    (memory : Memory) : (runAll actions memory).1 = [] := by
  induction actions generalizing memory with
  | nil => rfl
  | cons action rest ih =>
      obtain ⟨next, done⟩ := succeed action (.head _) memory
      simp only [runAll, done]
      exact ih (fun action member => succeed action (.tail _ member)) next

/-- Where nothing is freed, leaving a unit cannot fail. -/
theorem exists_leave_hoarding (registry : Registry) (summaries : Summaries) (method : Method)
    (root inner : ScopeId) (frame : Frame) :
    ∃ last, leave ⟨registry, summaries, .hoarding, method⟩ root inner frame = .ok () last := by
  have quiet : (runAll (drops ⟨registry, summaries, .hoarding, method⟩ root inner frame)
      frame.memory).1 = [] := by
    refine runAll_of_ok (fun action member memory => ?_) frame.memory
    simp only [drops, List.mem_append, List.mem_cons, List.mem_map, List.not_mem_nil,
      or_false] at member
    rcases member with ((rfl | rfl) | ⟨_, _, rfl⟩) | rfl | rfl
    · exact ⟨_, Memory.close_hoarding .hoarding inner memory memory.heap⟩
    · exact ⟨_, Memory.close_hoarding .hoarding root memory memory.heap⟩
    · exact ⟨memory, rfl⟩
    · exact ⟨memory, rfl⟩
    · exact ⟨memory, rfl⟩
  have none : (runAll (drops ⟨registry, summaries, .hoarding, method⟩ root inner frame)
      frame.memory).1.isEmpty = true := by rw [quiet]; rfl
  exact ⟨_, if_pos none⟩

/-- A body that is evaluated to its end is so without freeing anything. -/
theorem exists_body_hoarding {registry : Registry} {summaries : Summaries} {method : Method}
    {lastId : Nat} {entry : Entry} {memory : Memory} {inner : ScopeId} {frame : Frame}
    (entered : enter .counting method (.ofHeap (.startingAfter lastId)) = .ok entry memory)
    (finished : body (.counting registry summaries method) entry.root (entry.frame memory) =
      .ok inner frame) :
    ∃ shadow after,
      enter .hoarding method (.ofHeap (.startingAfter lastId)) =
        .ok entry (memory.withHeap shadow) ∧
      body ⟨registry, summaries, .hoarding, method⟩ entry.root
        (entry.frame (memory.withHeap shadow)) = .ok inner (frame.withHeap after) ∧
      frame.Hoards after := by
  obtain ⟨_, _, shadow, same, also, hoards, _⟩ := exists_enter_hoarding method lastId
  rw [entered] at same
  cases same
  have ran := (hoarding registry summaries method).body entry.root
    ⟨fun _ _ _ _ _ _ => trivial, fun _ _ _ _ _ _ _ _ => trivial⟩
    (entry.frame memory) _ ⟨shadow, rfl, hoards⟩
  rw [finished] at ran
  obtain ⟨_, followed, after, rfl, hoards⟩ := ran
  exact ⟨shadow, after, also, followed, hoards⟩

/-- The evaluation that never frees anything ends the body in the second frame, and
finds out what the one that counts references has found out in the first. -/
structure FoundAlike (registry : Registry) (summaries : Summaries) (method : Method) (lastId : Nat)
    (result : Result) (frame other : Frame) : Prop where
  finishes : Finishes (.counting registry summaries method) lastId frame
  told : result = frame.result
  follows : Finishes ⟨registry, summaries, .hoarding, method⟩ lastId other
  returns : (run ⟨registry, summaries, .hoarding, method⟩ lastId).result = .ok other.result
  effects : other.result.effects = result.effects
  receiver : other.result.receiver = result.receiver
  changes : other.result.changes = result.changes
  skipped : other.result.skipped = result.skipped
  live : ∀ ref, frame.heap.Live ref →
    (other.heap.object ref).id = (frame.heap.object ref).id ∧
      (other.heap.object ref).type = (frame.heap.object ref).type ∧
      (other.heap.object ref).fields = (frame.heap.object ref).fields

/-- Counting references cannot be seen: whenever the evaluation of a unit has a
result, so has the one that never frees anything, with the same effects, changes
and constructs passed over, and at the end of the body every live object has the
same type and fields in both heaps. -/
theorem run_hoarding (registry : Registry) (summaries : Summaries) (method : Method) (lastId : Nat)
    {result : Result}
    (done : (run (.counting registry summaries method) lastId).result = .ok result) :
    ∃ frame other, FoundAlike registry summaries method lastId result frame other := by
  obtain ⟨owner, known, entry, memory, inner, frame, _, entered, finished, _, told⟩ := run_eq_ok done
  obtain ⟨shadow, after, also, followed, hoards⟩ := exists_body_hoarding entered finished
  obtain ⟨last, left⟩ := exists_leave_hoarding registry summaries method entry.root inner
    (frame.withHeap after)
  subst told
  refine ⟨frame, frame.withHeap after, ⟨entry, memory, inner, entered, finished⟩, rfl,
    ⟨entry, memory.withHeap shadow, inner, also, followed⟩, run_of_ok known also followed left,
    rfl, rfl, rfl, rfl, fun ref live => ?_⟩
  have shadowed := hoards.object ref
  have present := (hoards.hoarded.indexed.isLive_iff live.1).1 live.2
  exact ⟨shadowed.id, shadowed.type, shadowed.fields present⟩

/-- A method that links a new object to its receiver and lets it go again. -/
def unlink : MethodDecl where
  pos := 0
  name := "unlink"
  params := [⟨0, "other", "Cell", false⟩]
  result := "Cell"
  isConstructor := false
  valueReceiver := false
  body := some ⟨0, [
    .localVar 1 "Cell" [("fresh", .new 1 "Cell" "" [])],
    .assign 2 (some ⟨2, this, "next"⟩) (.reference ⟨2, "", "fresh"⟩),
    .assign 3 (some ⟨3, "", "fresh"⟩) (.literal 3 "" true),
    .assign 4 (some ⟨4, this, "next"⟩) (.literal 4 "" true),
    .ret 5 [.reference ⟨5, "", "other"⟩]]⟩

/-- A class of linked objects. -/
def cells : Registry := .ofProgram ⟨[⟨0, "Cell", "", [⟨0, "Cell", ["next"]⟩], [unlink]⟩]⟩

/-- The new object has been freed at the end of the body. -/
def unlinked : Result where
  effects := .ofList [("other", .passForward)]
  receiver := .doesChange
  changes := .ofList [(this, 2)]
  heap := [⟨1, 1, "Cell", []⟩, ⟨2, 1, "", []⟩, ⟨3, 2, "Cell", []⟩]
  skipped := []

theorem run_hoarding_unlink :
    (run (.counting cells ∅ (.ofDecl "Cell" unlink)) 0).result = .ok unlinked ∧
      ∃ frame other, FoundAlike cells ∅ (.ofDecl "Cell" unlink) 0 unlinked frame other :=
  ⟨by decide +kernel, run_hoarding cells ∅ (.ofDecl "Cell" unlink) 0 (by decide +kernel)⟩

end Custody.Eval
