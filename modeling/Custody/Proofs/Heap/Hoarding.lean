import Custody.Heap.Discipline
import Custody.Proofs.Heap.Balance
import Custody.Proofs.Heap.Index
import Custody.Proofs.Heap.Seclusion

/-!
# Hoarding

A heap may be worked with without ever freeing anything: references are not
counted, and setting a field only overwrites it.  Such a heap shadows one that
counts references if it has the same objects, and the same fields at least of
those that are not released.  What a balanced heap reaches from an object that is
not released is then the same in both.
-/

namespace Custody

namespace Heap

/-- Overwrite a field, and do nothing else. -/
def overwrite (owner : Option Ref) (name : String) (value : Option Ref) : Action Unit :=
  fun heap =>
    match owner with
    | none => .ok () heap
    | some owner => .ok () (heap.update owner (.assign name value))

/-- Never free an object. -/
def Discipline.hoarding : Discipline where
  ref _ := pure ()
  unref _ := pure ()
  setField := overwrite
  transfer _ _ := pure ()
  sweep := pure ()

end Heap

/-- The second object is the first one, with its fields unless that is released. -/
structure Object.Shadowed (object other : Object) : Prop where
  id : other.id = object.id
  type : other.type = object.type
  isExternal : other.isExternal = object.isExternal
  fields : object.released = false → other.fields = object.fields

namespace Heap

/-- The second heap has the objects of the first one, with the fields of those
that are not released. -/
structure Shadowed (heap other : Heap) : Prop where
  length : other.objects.length = heap.objects.length
  lastId : other.lastId = heap.lastId
  object : ∀ ref, (heap.object ref).Shadowed (other.object ref)

namespace Shadowed

variable {heap other next : Heap} {held : List Ref} {owner root object : Ref} {name : String}

theorem refl (heap : Heap) : heap.Shadowed heap :=
  ⟨rfl, rfl, fun _ => ⟨rfl, rfl, rfl, fun _ => rfl⟩⟩

theorem field? (shadowed : heap.Shadowed other) (present : (heap.object owner).released = false)
    (name : String) : other.field? owner name = heap.field? owner name := by
  rw [Heap.field?, Heap.field?, (shadowed.object owner).fields present]

/-- What decays keeps its shadow. -/
theorem decays (shadowed : heap.Shadowed other) (decays : heap.Decays next) :
    next.Shadowed other where
  length := shadowed.length.trans decays.length.symm
  lastId := shadowed.lastId.trans decays.lastId.symm
  object ref := by
    have same := shadowed.object ref
    have fades := decays.object ref
    exact ⟨same.id.trans fades.id.symm, same.type.trans fades.type.symm,
      same.isExternal.trans fades.isExternal.symm, fun present =>
        (same.fields (fades.present present)).trans (fades.fields present).symm⟩

theorem extended (shadowed : heap.Shadowed other) (type : String) (isExternal : Bool) :
    (heap.extended type isExternal).Shadowed (other.extended type isExternal) where
  length := by rw [length_objects_extended, length_objects_extended, shadowed.length]
  lastId := congrArg (· + 1) shadowed.lastId
  object ref := by
    rw [object_extended, object_extended, shadowed.length, shadowed.lastId]
    split
    · exact ⟨rfl, rfl, rfl, fun _ => rfl⟩
    · exact shadowed.object ref

theorem assign (shadowed : heap.Shadowed other) (inside : owner < heap.objects.length)
    (name : String) (value : Option Ref) :
    (heap.update owner (.assign name value)).Shadowed
      (other.update owner (.assign name value)) where
  length := by rw [length_objects_update, length_objects_update, shadowed.length]
  lastId := shadowed.lastId
  object ref := by
    rw [object_update_of_lt inside, object_update_of_lt (by rw [shadowed.length]; exact inside)]
    split
    next =>
      obtain ⟨id, type, isExternal, fields⟩ := shadowed.object owner
      cases value with
      | none =>
          refine ⟨id, type, isExternal, fun present => ?_⟩
          simp only [Object.assign, Object.withoutField, fields present]
      | some value =>
          refine ⟨id, type, isExternal, fun present => ?_⟩
          simp only [Object.assign, Object.withField, fields present]
    next => exact shadowed.object ref

/-- A field that has been set is overwritten in the shadow. -/
theorem setField (shadowed : heap.Shadowed other) {value : Option Ref}
    (set : Heap.setField (some owner) name value heap = .ok () next) :
    next.Shadowed (other.update owner (.assign name value)) := by
  have inside := lt_of_not_released (not_released_of_setField set)
  exact (shadowed.assign inside name value).decays (setField_decays set)

/-- From an object that is not released, chains lead to the same objects. -/
theorem leads_iff (shadowed : heap.Shadowed other) (balanced : heap.Balanced held)
    (present : (heap.object root).released = false) :
    other.Leads root object ↔ heap.Leads root object := by
  constructor
  · intro leads
    suffices both : heap.Leads root object ∧ (heap.object object).released = false from both.1
    induction leads with
    | refl => exact ⟨.refl, present⟩
    | tail _ owns ih =>
        obtain ⟨name, found⟩ := owns
        rw [shadowed.field? ih.2] at found
        exact ⟨ih.1.tail ⟨name, found⟩, balanced.not_released_of_field found⟩
  · intro leads
    suffices both : other.Leads root object ∧ (heap.object object).released = false from both.1
    induction leads with
    | refl => exact ⟨.refl, present⟩
    | tail _ owns ih =>
        obtain ⟨name, found⟩ := owns
        have same := shadowed.field? ih.2 name
        rw [found] at same
        exact ⟨ih.1.tail ⟨name, same⟩, balanced.not_released_of_field found⟩

end Shadowed

/-- A released object that owns nothing, neither in the heap nor in its shadow. -/
structure Spent (heap other : Heap) (ref : Ref) : Prop where
  inside : ref < heap.objects.length
  released : (heap.object ref).released = true
  fields : ∀ name, heap.field? ref name = none ∧ other.field? ref name = none

namespace Spent

variable {heap other next : Heap} {owner root object : Ref} {name : String}

theorem leads_iff (spent : heap.Spent other root) :
    other.Leads root object ↔ heap.Leads root object := by
  constructor
  · intro leads
    rcases leads.cases_head with same | ⟨_, ⟨name, found⟩, _⟩
    · exact same ▸ .refl
    · rw [(spent.fields name).2] at found
      cases found
  · intro leads
    rcases leads.cases_head with same | ⟨_, ⟨name, found⟩, _⟩
    · exact same ▸ .refl
    · rw [(spent.fields name).1] at found
      cases found

theorem decays (spent : heap.Spent other root) (decays : heap.Decays next) :
    next.Spent other root where
  inside := by
    rw [decays.length]
    exact spent.inside
  released := by
    cases flag : (next.object root).released with
    | true => rfl
    | false =>
        have before := (decays.object root).present flag
        rw [spent.released] at before
        cases before
  fields name := by
    refine ⟨?_, (spent.fields name).2⟩
    cases found : next.field? root name with
    | none => rfl
    | some value =>
        have before := decays.thins.field? found
        rw [(spent.fields name).1] at before
        cases before

theorem extended (spent : heap.Spent other root) (type : String) (isExternal : Bool) :
    (heap.extended type isExternal).Spent (other.extended type isExternal) root where
  inside := by
    rw [length_objects_extended]
    exact Nat.lt_succ_of_lt spent.inside
  released := by
    rw [object_extended, if_neg (Nat.ne_of_lt spent.inside)]
    exact spent.released
  fields name := by
    rw [field?_extended, field?_extended]
    exact spent.fields name

/-- A field of another object has been set. -/
theorem setField (spent : heap.Spent other root) {value : Option Ref}
    (set : Heap.setField (some owner) name value heap = .ok () next) :
    next.Spent (other.update owner (.assign name value)) root := by
  have present := not_released_of_setField set
  have apart : root ≠ owner := by
    rintro rfl
    rw [spent.released] at present
    cases present
  have assigned : (heap.update owner (.assign name value)).Spent
      (other.update owner (.assign name value)) root := by
    refine ⟨by simpa using spent.inside, ?_, fun field => ?_⟩
    · rw [object_update_of_ne apart]
      exact spent.released
    · rw [Heap.field?, Heap.field?, object_update_of_ne apart, object_update_of_ne apart]
      exact spent.fields field
  exact assigned.decays (setField_decays set)

end Spent

/-- An object that is let go by its only holder is released. -/
theorem released_of_transfer {heap next : Heap} {old : Ref} {value : Option Ref}
    (present : (heap.object old).released = false) (single : (heap.object old).count = 1)
    (apart : some old ≠ value) (done : transfer (some old) value heap = .ok () next) :
    (next.object old).released = true := by
  have inside := lt_of_not_released present
  rcases transfer_cases heap (some old) value with
    ⟨_, refused, _⟩ | ⟨same, _⟩ | ⟨_, _, moved⟩
  · rw [done] at refused
    cases refused
  · exact absurd same apart
  · have freed : letGo (some old) heap = .ok () ((heap.update old .lower).remove old) := by
      simp [letGo, release, present, single]
    rw [bind_of_ok freed] at moved
    have gone : (((heap.update old .lower).remove old).object old).released = true ∧
        (((heap.update old .lower).remove old).object old).fields = ∅ := by
      have buried : ((heap.update old .lower).remove old).object old =
          ((heap.update old .lower).object old).bury :=
        object_update_self (by simpa using inside)
      rw [buried]
      exact ⟨rfl, rfl⟩
    have stable := Tidy.stable_of_released old ∅
    have last := ending_bind
      (fun heap : Heap => (heap.object old).released = true ∧ (heap.object old).fields = ∅)
      (stable.acquire value gone) fun _ _ _ => stable.drain
    rw [← moved, done] at last
    exact last.1

end Heap

end Custody
