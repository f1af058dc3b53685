import Custody.Heap.Counting
import Custody.Heap.Reach
import Custody.Proofs.Data.Ending

/-!
# Decay

Apart from taking references, the operations of a heap only let objects decay:
an object is released and loses its fields, and everything else about it stays.
`Heap.Decays` says so of two heaps.  Releasing, draining, transferring and
sweeping make a heap decay however they end; setting a field makes the heap decay
in which the field has been overwritten.

The equations and case distinctions of the operations stand first; later modules
use them and do not unfold the operations again.
-/

namespace Custody

namespace Heap

variable {heap : Heap} {ref owner value occupant : Ref} {name : String}

theorem object_update_of_lt {change : Object → Object} (inside : ref < heap.objects.length)
    (other : Ref) :
    (heap.update ref change).object other =
      if other = ref then change (heap.object ref) else heap.object other := by
  split
  next same =>
    subst same
    exact object_update_self inside
  next different => exact object_update_of_ne different

/-- Changes of objects that commute can be made in either order. -/
theorem update_comm {first second : Object → Object}
    (commute : ∀ object, second (first object) = first (second object)) :
    (heap.update owner first).update value second =
      (heap.update value second).update owner first := by
  simp only [update, Heap.mk.injEq, and_true]
  by_cases same : owner = value
  · subst same
    rw [List.modify_modify_eq, List.modify_modify_eq]
    congr 1
    funext object
    exact commute object
  · exact List.modify_modify_ne first second _ same

/-- Only what a change makes of the object at its place matters. -/
theorem update_congr {first second : Object → Object}
    (same : first (heap.object ref) = second (heap.object ref)) :
    heap.update ref first = heap.update ref second := by
  simp only [update, Heap.mk.injEq, and_true]
  apply List.ext_getElem?
  intro place
  rw [List.getElem?_modify, List.getElem?_modify]
  cases found : heap.objects[place]? with
  | none => rfl
  | some object =>
      by_cases here : ref = place
      · subst here
        have occupant : heap.object ref = object := by simp [Heap.object, List.getD, found]
        rw [occupant] at same
        simp [same]
      · simp [here]

/-- Only objects in the store have fields. -/
theorem lt_of_field? (found : heap.field? owner name = some occupant) :
    owner < heap.objects.length := by
  rcases Nat.lt_or_ge owner heap.objects.length with inside | outside
  · exact inside
  · rw [field?, object_of_le outside] at found
    cases found

/-- A heap with one more object in its store. -/
def extended (heap : Heap) (type : String) (isExternal : Bool) : Heap :=
  { heap with
    objects := heap.objects ++ [.fresh (heap.lastId + 1) type isExternal]
    live := heap.live.insert (heap.lastId + 1) heap.objects.length
    lastId := heap.lastId + 1 }

theorem allocate_eq (heap : Heap) (type : String) (isExternal : Bool) :
    allocate type isExternal heap =
      .ok heap.objects.length (heap.extended type isExternal) := rfl

@[simp] theorem length_objects_extended (heap : Heap) (type : String) (isExternal : Bool) :
    (heap.extended type isExternal).objects.length = heap.objects.length + 1 := by
  simp [extended]

theorem object_extended (heap : Heap) (type : String) (isExternal : Bool) (ref : Nat) :
    (heap.extended type isExternal).object ref =
      if ref = heap.objects.length then .fresh (heap.lastId + 1) type isExternal
      else heap.object ref := by
  simp only [object, extended, List.getD_eq_getElem?_getD, List.getElem?_append]
  split
  next inside => simp [Nat.ne_of_lt inside]
  next outside =>
    split
    next last => simp [last]
    next other =>
      have beyond : heap.objects.length < ref :=
        Nat.lt_of_le_of_ne (Nat.le_of_not_lt outside) (Ne.symm other)
      simp [List.getElem?_eq_none (Nat.le_of_lt beyond), Nat.sub_ne_zero_of_lt beyond]

/-! ## The equations of draining -/

theorem drain_of_settled (settled : heap.pending = []) : drain heap = .ok () heap := by
  rw [drain]
  split
  · rfl
  next due => rw [settled] at due; cases due

theorem drain_of_released {rest : List Ref} {next : Heap} (due : heap.pending = ref :: rest)
    (released : release ref { heap with pending := rest } = .ok () next) :
    drain heap = drain next := by
  rw [drain]
  split
  next none => rw [due] at none; cases none
  next first others same =>
    rw [due] at same
    cases same
    split
    next after same => rw [released] at same; cases same; rfl
    next error after same => rw [released] at same; cases same

theorem drain_of_refused {rest : List Ref} {next : Heap} {error : Error}
    (due : heap.pending = ref :: rest)
    (refused : release ref { heap with pending := rest } = .error error next) :
    drain heap = .error error { next with pending := [] } := by
  rw [drain]
  split
  next none => rw [due] at none; cases none
  next first others same =>
    rw [due] at same
    cases same
    split
    next after same => rw [refused] at same; cases same
    next error after same => rw [refused] at same; cases same; rfl

/-- Remove an object that nobody refers to. -/
def discard (heap : Heap) (ref : Ref) : Heap :=
  if (heap.object ref).released || (heap.object ref).count != 0 then heap else heap.remove ref

theorem sweep_eq (heap : Heap) :
    sweep heap = drain ((heap.live.values.filter fun ref =>
      (heap.object ref).count == 0).foldl discard heap) := rfl

/-- Releasing an object leaves all others alone. -/
theorem object_release_of_ne {other : Ref} (different : other ≠ ref) :
    (ending (release ref heap)).object other = heap.object other := by
  have lowered : (heap.update ref .lower).object other = heap.object other :=
    object_update_of_ne different
  unfold release
  dsimp only
  split
  · rfl
  · split
    · exact (object_update_of_ne different).trans lowered
    · exact lowered

/-! ## What setting a field and transferring do -/

/-- Setting a field is refused, does nothing, or replaces the occupant. -/
theorem setField_cases (heap : Heap) (owner : Option Ref) (name : String) (value : Option Ref) :
    (∃ error, setField owner name value heap = .error error heap ∧
        error.isDoubleRelease = false ∧
        ∀ object, owner = some object →
          (heap.object object).released = true ∨ heap.isReleased value = true) ∨
      ∃ object, owner = some object ∧ (heap.object object).released = false ∧
        ((heap.field? object name = value ∧ setField owner name value heap = .ok () heap) ∨
          (heap.field? object name ≠ value ∧ heap.isReleased value = false ∧
            setField owner name value heap =
              (do
                vacate object name (heap.field? object name)
                occupy object name value
                drain : Action Unit) heap)) := by
  cases owner with
  | none => exact .inl ⟨_, rfl, rfl, fun _ missing => by cases missing⟩
  | some owner =>
      unfold setField
      dsimp only
      split
      next released =>
        refine .inl ⟨_, rfl, rfl, ?_⟩
        rintro _ ⟨⟩
        exact .inl released
      next present =>
        have present : (heap.object owner).released = false := by simpa using present
        split
        next same => exact .inr ⟨owner, rfl, present, .inl ⟨same, rfl⟩⟩
        next different =>
          cases value with
          | none => exact .inr ⟨owner, rfl, present, .inr ⟨different, rfl, rfl⟩⟩
          | some value =>
              cases flag : heap.isReleased (some value) with
              | true =>
                  exact .inl ⟨.store (heap.object value).label (heap.object owner).label name,
                    by simp [Option.filter, flag], rfl, fun _ _ => .inr rfl⟩
              | false =>
                  refine .inr ⟨owner, rfl, present, .inr ⟨different, rfl, ?_⟩⟩
                  simp only [Option.filter, flag, Bool.false_eq_true, ↓reduceIte]
                  rfl

/-- Only fields of objects that are not released can be set. -/
theorem not_released_of_setField {next : Heap} {value : Option Ref}
    (set : setField (some owner) name value heap = .ok () next) :
    (heap.object owner).released = false := by
  rcases setField_cases heap (some owner) name value with
    ⟨error, refused, _⟩ | ⟨_, ⟨⟩, present, _⟩
  · rw [set] at refused
    cases refused
  · exact present

/-- A field that is free is only occupied. -/
theorem setField_of_free (present : (heap.object owner).released = false)
    (free : heap.field? owner name = none) (available : (heap.object value).released = false)
    (settled : heap.pending = []) :
    setField (some owner) name (some value) heap =
      .ok () ((heap.update owner (.withField name value)).update value .raise) := by
  rcases setField_cases heap (some owner) name (some value) with
    ⟨_, _, _, reason⟩ | ⟨_, ⟨⟩, _, ⟨same, _⟩ | ⟨_, _, moved⟩⟩
  · rcases reason owner rfl with gone | gone
    · rw [present] at gone
      cases gone
    · rw [isReleased, available] at gone
      cases gone
  · rw [free] at same
    cases same
  · rw [moved, free]
    exact drain_of_settled settled

/-- Transferring is refused, does nothing, or lets one object go for another. -/
theorem transfer_cases (heap : Heap) (old value : Option Ref) :
    (∃ error, transfer old value heap = .error error heap ∧ error.isDoubleRelease = false ∧
        heap.isReleased value = true) ∨
      (old = value ∧ transfer old value heap = .ok () heap) ∨
      (old ≠ value ∧ heap.isReleased value = false ∧
        transfer old value heap =
          (do
            letGo old
            acquire value
            drain : Action Unit) heap) := by
  unfold transfer
  split
  next same => exact .inr (.inl ⟨same, rfl⟩)
  next different =>
    cases value with
    | none => exact .inr (.inr ⟨different, rfl, rfl⟩)
    | some value =>
        cases flag : heap.isReleased (some value) with
        | true =>
            exact .inl ⟨.acquire (heap.object value).label, by simp [Option.filter, flag], rfl, rfl⟩
        | false =>
            refine .inr (.inr ⟨different, rfl, ?_⟩)
            simp only [Option.filter, flag, Bool.false_eq_true, ↓reduceIte]

/-! ## Stable properties -/

/-- A property of heaps that taking references, dropping them and removing objects
keep. -/
structure Stable (property : Heap → Prop) : Prop where
  raise : ∀ {heap} ref, property heap → property (heap.update ref .raise)
  lower : ∀ {heap} ref, property heap → property (heap.update ref .lower)
  remove : ∀ {heap} ref, (heap.object ref).released = false → property heap →
    property (heap.remove ref)
  pending : ∀ {heap} pending, property heap → property { heap with pending }

namespace Stable

variable {property : Heap → Prop}

theorem release (stable : Stable property) (ref : Ref) (holds : property heap) :
    property (ending (Heap.release ref heap)) := by
  unfold Heap.release
  dsimp only
  split
  · exact holds
  next allowed =>
    have present : (heap.object ref).released = false := by
      simp only [Bool.or_eq_true, not_or, Bool.not_eq_true] at allowed
      exact allowed.1
    split
    · refine stable.remove ref ?_ (stable.lower ref holds)
      rw [object_update_self (lt_of_not_released present)]
      exact present
    · exact stable.lower ref holds

theorem drain (stable : Stable property) (holds : property heap) :
    property (ending (Heap.drain heap)) := by
  induction heap using Heap.drain.induct with
  | case1 heap settled =>
      rw [drain_of_settled settled]
      exact holds
  | case2 heap ref rest due next released lighter ih =>
      have first := stable.release ref (stable.pending rest holds)
      rw [released] at first
      rw [drain_of_released due released]
      exact ih first
  | case3 heap ref rest due error next refused =>
      have first := stable.release ref (stable.pending rest holds)
      rw [refused] at first
      rw [drain_of_refused due refused]
      exact stable.pending [] first

theorem refer (stable : Stable property) (object : Option Ref) (holds : property heap) :
    property (ending (Heap.ref object heap)) := by
  cases object with
  | none => exact holds
  | some ref =>
      unfold Heap.ref
      dsimp only
      split
      · exact holds
      · exact stable.raise ref holds

theorem unref (stable : Stable property) (object : Option Ref) (holds : property heap) :
    property (ending (Heap.unref object heap)) := by
  cases object with
  | none => exact holds
  | some ref =>
      exact ending_bind property (stable.release ref holds) fun _ _ _ => stable.drain

theorem letGo (stable : Stable property) (object : Option Ref) (holds : property heap) :
    property (ending (Heap.letGo object heap)) := by
  cases object with
  | none => exact holds
  | some ref => exact stable.release ref holds

theorem acquire (stable : Stable property) (object : Option Ref) (holds : property heap) :
    property (ending (Heap.acquire object heap)) := by
  cases object with
  | none => exact holds
  | some ref => exact stable.raise ref holds

theorem transfer (stable : Stable property) (old value : Option Ref) (holds : property heap) :
    property (ending (Heap.transfer old value heap)) := by
  rcases transfer_cases heap old value with ⟨error, refused, _⟩ | ⟨_, idle⟩ | ⟨_, _, moved⟩
  · rw [refused]
    exact holds
  · rw [idle]
    exact holds
  · rw [moved]
    refine ending_bind property (stable.letGo old holds) fun _ _ _ middle => ?_
    exact ending_bind property (stable.acquire value middle) fun _ _ _ => stable.drain

theorem discard (stable : Stable property) (ref : Ref) (holds : property heap) :
    property (heap.discard ref) := by
  unfold Heap.discard
  split
  · exact holds
  next garbage =>
    simp only [Bool.or_eq_true, not_or, Bool.not_eq_true] at garbage
    exact stable.remove ref garbage.1 holds

theorem sweep (stable : Stable property) (holds : property heap) :
    property (ending (Heap.sweep heap)) := by
  have cleared : ∀ (garbage : List Ref) {heap : Heap}, property heap →
      property (garbage.foldl Heap.discard heap) := by
    intro garbage
    induction garbage with
    | nil => exact fun holds => holds
    | cons first rest ih => exact fun holds => ih (stable.discard first holds)
  rw [sweep_eq]
  exact stable.drain (cleared _ holds)

/-- Setting a field keeps a stable property if taking the old occupant out and
putting the new one in does. -/
theorem setField (stable : Stable property) {owner : Option Ref} {value : Option Ref}
    (holds : property heap)
    (taken : ∀ object, owner = some object → (heap.object object).released = false →
      property (heap.update object (.withoutField name)))
    (stored : ∀ object occupant middle, owner = some object → value = some occupant →
      (heap.object object).released = false → heap.field? object name ≠ value →
      heap.isReleased value = false →
      vacate object name (heap.field? object name) heap = .ok () middle → property middle →
      property (middle.update object (.withField name occupant))) :
    property (ending (Heap.setField owner name value heap)) := by
  rcases setField_cases heap owner name value with
    ⟨error, refused, _⟩ | ⟨object, rfl, present, ⟨_, idle⟩ | ⟨different, available, moved⟩⟩
  · rw [refused]
    exact holds
  · rw [idle]
    exact holds
  · rw [moved]
    refine ending_bind property ?_ fun _ middle vacated kept => ?_
    · cases found : heap.field? object name with
      | none => exact holds
      | some occupant => exact stable.release occupant (taken object rfl present)
    · refine ending_bind property ?_ fun _ _ _ => stable.drain
      cases value with
      | none => exact kept
      | some occupant =>
          exact stable.raise occupant
            (stored object occupant middle rfl rfl present different available vacated kept)

end Stable

/-! ## Decay -/

end Heap

namespace Object

/-- The second object is the first one, perhaps with fewer fields. -/
structure Thins (before after : Object) : Prop where
  id : after.id = before.id
  type : after.type = before.type
  isExternal : after.isExternal = before.isExternal
  shrunk : ∀ {name value}, after.fields.find? name = some value →
    before.fields.find? name = some value

/-- The second object is the first one, perhaps after its release. -/
structure Fades (before after : Object) : Prop extends Thins before after where
  present : after.released = false → before.released = false
  fields : after.released = false → after.fields = before.fields

namespace Thins

theorem refl (object : Object) : object.Thins object := ⟨rfl, rfl, rfl, fun found => found⟩

theorem trans {first second third : Object} (one : first.Thins second) (two : second.Thins third) :
    first.Thins third where
  id := two.id.trans one.id
  type := two.type.trans one.type
  isExternal := two.isExternal.trans one.isExternal
  shrunk found := one.shrunk (two.shrunk found)

theorem withField {before after : Object} (thins : before.Thins after) (name : String)
    (value : Ref) : (before.withField name value).Thins (after.withField name value) where
  id := thins.id
  type := thins.type
  isExternal := thins.isExternal
  shrunk := by
    intro other occupant found
    by_cases same : other = name
    · subst same
      simpa [Object.withField] using found
    · rw [Object.withField, Table.find?_insert_of_ne same] at found
      rw [Object.withField, Table.find?_insert_of_ne same]
      exact thins.shrunk found

end Thins

namespace Fades

theorem refl (object : Object) : object.Fades object :=
  ⟨.refl object, fun present => present, fun _ => rfl⟩

theorem trans {first second third : Object} (one : first.Fades second) (two : second.Fades third) :
    first.Fades third where
  toThins := one.toThins.trans two.toThins
  present kept := one.present (two.present kept)
  fields kept := (two.fields kept).trans (one.fields (two.present kept))

theorem raise (object : Object) : object.Fades object.raise :=
  ⟨⟨rfl, rfl, rfl, fun found => found⟩, fun present => present, fun _ => rfl⟩

theorem lower (object : Object) : object.Fades object.lower :=
  ⟨⟨rfl, rfl, rfl, fun found => found⟩, fun present => present, fun _ => rfl⟩

theorem bury (object : Object) : object.Fades object.bury where
  id := rfl
  type := rfl
  isExternal := rfl
  shrunk found := by cases found
  present kept := by cases kept
  fields kept := by cases kept

theorem withField {before after : Object} (fades : before.Fades after) (name : String)
    (value : Ref) : (before.withField name value).Fades (after.withField name value) where
  toThins := fades.toThins.withField name value
  present := fades.present
  fields kept := by
    simp only [Object.withField, fades.fields kept]

/-- Storing an object over another one does not depend on the old one having been
taken out. -/
theorem overwrite (object : Object) (name : String) (value : Ref) :
    (object.withField name value).Fades ((object.withoutField name).withField name value) := by
  have same : ((object.withoutField name).withField name value).fields =
      (object.withField name value).fields := by
    apply Table.ext
    intro other
    by_cases here : other = name
    · simp [Object.withField, here]
    · simp [Object.withField, Object.withoutField, Table.find?_insert_of_ne here,
        Table.find?_erase_of_ne here]
  exact ⟨⟨rfl, rfl, rfl, fun found => by rw [← same]; exact found⟩, fun present => present,
    fun _ => same⟩

end Fades

/-- The object with a field overwritten; a field that holds nothing is free. -/
def assign (name : String) (value : Option Ref) (object : Object) : Object :=
  match value with
  | some value => object.withField name value
  | none => object.withoutField name

theorem find?_fields_assign (object : Object) (name : String) (value : Option Ref)
    (other : String) :
    (object.assign name value).fields.find? other =
      if other = name then value else object.fields.find? other := by
  cases value with
  | none =>
      rw [assign, withoutField, Table.find?_erase]
      simp only [Std.LawfulEqCmp.compare_eq_iff_eq, eq_comm (a := name)]
  | some value =>
      simp only [assign, withField, Table.find?_insert, Std.LawfulEqCmp.compare_eq_iff_eq]

theorem Fades.of_assign_same {object : Object} {name : String} {value : Option Ref}
    (same : object.fields.find? name = value) : (object.assign name value).Fades object := by
  have fields : object.fields = (object.assign name value).fields := by
    apply Table.ext
    intro other
    rw [find?_fields_assign]
    split
    next here => rw [here, same]
    next => rfl
  have others : (object.assign name value).id = object.id ∧
      (object.assign name value).type = object.type ∧
      (object.assign name value).isExternal = object.isExternal ∧
      (object.assign name value).released = object.released := by
    cases value <;> exact ⟨rfl, rfl, rfl, rfl⟩
  exact {
    id := others.1.symm
    type := others.2.1.symm
    isExternal := others.2.2.1.symm
    shrunk := fun found => by rw [← fields]; exact found
    present := fun present => by rw [others.2.2.2]; exact present
    fields := fun _ => fields }

end Object

namespace Heap

variable {heap before after : Heap} {ref owner value : Ref} {name : String}

/-- The second heap comes from the first by taking objects out of fields. -/
structure Thins (before after : Heap) : Prop where
  length : after.objects.length = before.objects.length
  lastId : after.lastId = before.lastId
  object : ∀ ref, (before.object ref).Thins (after.object ref)

/-- The second heap comes from the first by counting and releasing objects. -/
structure Decays (before after : Heap) : Prop where
  length : after.objects.length = before.objects.length
  lastId : after.lastId = before.lastId
  object : ∀ ref, (before.object ref).Fades (after.object ref)

theorem object_update_cases (heap : Heap) (ref : Ref) (change : Object → Object) (other : Ref) :
    (heap.update ref change).object other = heap.object other ∨
      (heap.update ref change).object other = change (heap.object other) := by
  rcases Nat.lt_or_ge ref heap.objects.length with inside | outside
  · rw [object_update_of_lt inside]
    split
    next same => exact .inr (by rw [same])
    next => exact .inl rfl
  · refine .inl ?_
    by_cases same : other = ref
    · subst same
      rw [object_of_le outside, object_of_le (by simpa using outside)]
    · exact object_update_of_ne same

namespace Thins

theorem refl (heap : Heap) : heap.Thins heap := ⟨rfl, rfl, fun ref => .refl (heap.object ref)⟩

theorem trans {first second third : Heap} (one : first.Thins second) (two : second.Thins third) :
    first.Thins third where
  length := two.length.trans one.length
  lastId := two.lastId.trans one.lastId
  object ref := (one.object ref).trans (two.object ref)

theorem update_update {first second : Object → Object} (inside : ref < before.objects.length)
    (thins : before.Thins after)
    (together : (first (before.object ref)).Thins (second (after.object ref))) :
    (before.update ref first).Thins (after.update ref second) where
  length := by simpa using thins.length
  lastId := thins.lastId
  object other := by
    rw [object_update_of_lt inside, object_update_of_lt (by rw [thins.length]; exact inside)]
    split
    next => exact together
    next => exact thins.object other

theorem field? (thins : before.Thins after) (found : after.field? owner name = some value) :
    before.field? owner name = some value :=
  (thins.object owner).shrunk found

end Thins

namespace Decays

theorem refl (heap : Heap) : heap.Decays heap := ⟨rfl, rfl, fun ref => .refl (heap.object ref)⟩

theorem trans {first second third : Heap} (one : first.Decays second)
    (two : second.Decays third) : first.Decays third where
  length := two.length.trans one.length
  lastId := two.lastId.trans one.lastId
  object ref := (one.object ref).trans (two.object ref)

theorem thins (decays : before.Decays after) : before.Thins after :=
  ⟨decays.length, decays.lastId, fun ref => (decays.object ref).toThins⟩

theorem update {change : Object → Object} (fade : ∀ object : Object, object.Fades (change object)) :
    heap.Decays (heap.update ref change) where
  length := length_objects_update
  lastId := rfl
  object other := by
    rcases object_update_cases heap ref change other with same | changed
    · rw [same]
      exact .refl (heap.object other)
    · rw [changed]
      exact fade (heap.object other)

theorem update_update {first second : Object → Object} (inside : ref < before.objects.length)
    (decays : before.Decays after)
    (together : (first (before.object ref)).Fades (second (after.object ref))) :
    (before.update ref first).Decays (after.update ref second) where
  length := by simpa using decays.length
  lastId := decays.lastId
  object other := by
    rw [object_update_of_lt inside, object_update_of_lt (by rw [decays.length]; exact inside)]
    split
    next => exact together
    next => exact decays.object other

theorem remove (heap : Heap) (ref : Ref) : heap.Decays (heap.remove ref) :=
  ⟨length_objects_update, rfl, (update .bury).object⟩

/-- What has decayed from a heap goes on to do so. -/
theorem stable (before : Heap) : Stable before.Decays where
  raise _ decays := decays.trans (update .raise)
  lower _ decays := decays.trans (update .lower)
  remove ref _ decays := decays.trans (remove _ ref)
  pending _ decays := ⟨decays.length, decays.lastId, decays.object⟩

/-! ## Setting a field -/

/-- Leaving a free field free, or storing what is stored already, changes
nothing. -/
theorem assign_same (inside : owner < heap.objects.length) {value : Option Ref}
    (same : heap.field? owner name = value) :
    (heap.update owner (.assign name value)).Decays heap where
  length := length_objects_update.symm
  lastId := rfl
  object ref := by
    rw [object_update_of_lt inside]
    split
    next here =>
      subst here
      exact Object.Fades.of_assign_same same
    next => exact .refl (heap.object ref)

/-- Once the old occupant is out, occupying the field and draining end in a heap
that has decayed from the one with the field overwritten. -/
theorem occupy (inside : owner < heap.objects.length) {middle : Heap}
    (vacated : (heap.update owner (.withoutField name)).Decays middle) (value : Option Ref) :
    (heap.update owner (.assign name value)).Decays
      (ending ((do Heap.occupy owner name value; Heap.drain : Action Unit) middle)) := by
  cases value with
  | none => exact (stable _).drain vacated
  | some value =>
      have stored : (heap.update owner (.withField name value)).Decays
          (middle.update owner (.withField name value)) := by
        have overwritten : (heap.update owner (.withField name value)).Decays
            ((heap.update owner (.withoutField name)).update owner (.withField name value)) := by
          refine ⟨by simp, rfl, fun ref => ?_⟩
          rw [object_update_of_lt inside, object_update_of_lt (by simpa using inside),
            object_update_self inside]
          split
          next => exact .overwrite (heap.object owner) name value
          next different =>
            rw [object_update_of_ne different]
            exact .refl (heap.object ref)
        refine overwritten.trans (update_update (by simpa using inside) vacated ?_)
        exact (vacated.object owner).withField name value
      exact (stable _).drain (stored.trans (update .raise))

theorem vacate (inside : owner < heap.objects.length) (name : String) :
    (heap.update owner (.withoutField name)).Decays
      (ending (Heap.vacate owner name (heap.field? owner name) heap)) := by
  cases found : heap.field? owner name with
  | none => exact assign_same inside found
  | some occupant => exact (stable _).release occupant (refl _)

end Decays

/-- A field that has been set holds the value, as far as its owner is still
there. -/
theorem setField_decays {next : Heap} {value : Option Ref}
    (set : setField (some owner) name value heap = .ok () next) :
    (heap.update owner (.assign name value)).Decays next := by
  rcases setField_cases heap (some owner) name value with
    ⟨error, refused, _⟩ | ⟨_, ⟨⟩, present, ⟨same, idle⟩ | ⟨_, _, moved⟩⟩
  · rw [set] at refused
    cases refused
  · rw [set] at idle
    cases idle
    exact .assign_same (lt_of_not_released present) same
  · have inside := lt_of_not_released present
    rw [set] at moved
    obtain ⟨_, middle, vacated, occupied⟩ := bind_eq_ok moved.symm
    have first := Decays.vacate inside name
    rw [vacated, ending_ok] at first
    have last := Decays.occupy inside first value
    rw [occupied] at last
    exact last

/-- However setting a field ends, no field holds more than before but the one
that is set. -/
theorem setField_thins (heap : Heap) (owner : Option Ref) (name : String) (value : Option Ref) :
    heap.Thins (ending (setField owner name value heap)) ∨
      ∃ object, owner = some object ∧ object < heap.objects.length ∧
        (∀ ref ∈ value, ref < heap.objects.length) ∧
        (heap.update object (.assign name value)).Thins
          (ending (setField owner name value heap)) := by
  rcases setField_cases heap owner name value with
    ⟨error, refused, _⟩ | ⟨object, rfl, present, ⟨_, idle⟩ | ⟨_, available, moved⟩⟩
  · rw [refused]
    exact .inl (.refl heap)
  · rw [idle]
    exact .inl (.refl heap)
  · have inside := lt_of_not_released present
    have stored : ∀ ref ∈ value, ref < heap.objects.length := by
      rintro ref ⟨⟩
      exact lt_of_not_released available
    refine .inr ⟨object, rfl, inside, stored, ?_⟩
    rw [moved]
    have first := Decays.vacate inside name
    cases vacated : vacate object name (heap.field? object name) heap with
    | ok _ middle =>
        rw [vacated] at first
        rw [bind_of_ok vacated]
        exact (Decays.occupy inside first value).thins
    | error error middle =>
        rw [vacated] at first
        rw [bind_of_error vacated]
        refine Thins.trans ?_ first.thins
        refine (Thins.refl heap).update_update inside ⟨?_, ?_, ?_, ?_⟩
        · cases value <;> rfl
        · cases value <;> rfl
        · cases value <;> rfl
        · intro other occupant found
          rw [Object.withoutField, Table.find?_erase] at found
          split at found
          · cases found
          next apart =>
            rw [Object.find?_fields_assign, if_neg fun same => apart (by simp [same])]
            exact found

end Heap

end Custody
