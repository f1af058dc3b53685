import Custody.Proofs.Heap.Chains
import Custody.Proofs.Heap.Decay

/-!
# Seclusion

What an object leads to may be kept apart from the rest of the heap: nobody owns
the object itself, and everything else that it leads to stands for state of the
caller, has been assigned by nobody, and is owned through one field only, the one
it was put into when it was made up.  Then what the object leads to is a tree that
no field from outside points into, and the trees of two such objects have nothing
in common.

Seclusion bears the decay of the heap, new objects, assignments that have nothing
to do with the tree, and objects made up anywhere.
-/

namespace Custody.Heap

open Relation

variable {heap next : Heap} {owner value root object : Ref} {name type : String}

/-- Fields only hold objects of the store. -/
def Bounded (heap : Heap) : Prop :=
  ∀ owner name value, heap.field? owner name = some value → value < heap.objects.length

/-- What the root leads to is kept apart.  `origin` tells into which field an
object was put when it was made up, `assigned` which objects were assigned. -/
structure Secluded (origin : Ref → Ref → String → Prop) (assigned : Ref → Prop) (heap : Heap)
    (root : Ref) : Prop where
  unowned : ∀ owner name, heap.field? owner name ≠ some root
  isExternal : ∀ {object}, heap.Leads root object → (heap.object object).isExternal = true
  unassigned : ∀ {object}, heap.Leads root object → ¬assigned object
  sole : ∀ {object}, heap.Leads root object → object ≠ root →
    ∃ owner name, origin object owner name ∧
      ∀ other field, heap.field? other field = some object → other = owner ∧ field = name

/-! ## Fields after an update -/

theorem field?_assign (inside : owner < heap.objects.length) (value : Option Ref) (other : Ref)
    (field : String) :
    (heap.update owner (.assign name value)).field? other field =
      if other = owner ∧ field = name then value else heap.field? other field := by
  unfold field?
  rw [object_update_of_lt inside]
  by_cases here : other = owner
  · subst here
    rw [if_pos rfl, Object.find?_fields_assign]
    by_cases same : field = name
    · simp [same]
    · simp [same]
  · simp [here]

theorem lt_of_isExternal (external : (heap.object owner).isExternal = true) :
    owner < heap.objects.length := by
  rcases Nat.lt_or_ge owner heap.objects.length with inside | outside
  · exact inside
  · rw [object_of_le outside] at external
    cases external

theorem update_of_le {change : Object → Object} (outside : heap.objects.length ≤ owner) :
    heap.update owner change = heap := by
  rw [update, List.modify_eq_self outside]

theorem id_assign (heap : Heap) (owner : Ref) (name : String) (value : Option Ref) (other : Ref) :
    ((heap.update owner (.assign name value)).object other).id = (heap.object other).id := by
  rcases object_update_cases heap owner (.assign name value) other with same | changed
  · rw [same]
  · rw [changed]
    cases value <;> rfl

theorem isExternal_assign (heap : Heap) (owner : Ref) (name : String) (value : Option Ref)
    (other : Ref) :
    ((heap.update owner (.assign name value)).object other).isExternal =
      (heap.object other).isExternal := by
  rcases object_update_cases heap owner (.assign name value) other with same | changed
  · rw [same]
  · rw [changed]
    cases value <;> rfl

theorem field?_extended (heap : Heap) (type : String) (isExternal : Bool) (other : Ref)
    (field : String) :
    (heap.extended type isExternal).field? other field = heap.field? other field := by
  unfold field?
  rw [object_extended]
  split
  next last =>
    rw [last, object_of_le (Nat.le_refl _)]
    rfl
  next => rfl

theorem leads_mono (fewer : ∀ owner name value, next.field? owner name = some value →
      heap.field? owner name = some value) (leads : next.Leads root object) :
    heap.Leads root object := by
  refine ReflTransGen.mono (fun owner value owns => ?_) root object leads
  obtain ⟨name, found⟩ := owns
  exact ⟨name, fewer owner name value found⟩

theorem leads_extended {type : String} {isExternal : Bool}
    (leads : (heap.extended type isExternal).Leads root object) : heap.Leads root object :=
  leads_mono (fun _ _ _ found => by rwa [field?_extended] at found) leads

/-- A chain that does not meet the owner of an assigned field has not changed. -/
theorem leads_assign (inside : owner < heap.objects.length) {value : Option Ref}
    (apart : ¬heap.Leads root owner)
    (leads : (heap.update owner (.assign name value)).Leads root object) :
    heap.Leads root object := by
  induction leads with
  | refl => exact .refl
  | @tail middle last _ owns ih =>
      obtain ⟨field, found⟩ := owns
      rw [field?_assign inside] at found
      split at found
      next here =>
        rw [here.1] at ih
        exact absurd ih apart
      next => exact ih.tail ⟨field, found⟩

namespace Bounded

theorem lt_of_leads (bounded : heap.Bounded) (inside : root < heap.objects.length)
    (leads : heap.Leads root object) : object < heap.objects.length := by
  induction leads with
  | refl => exact inside
  | tail _ owns _ =>
      obtain ⟨name, found⟩ := owns
      exact bounded _ name _ found

theorem thins (bounded : heap.Bounded) (thins : heap.Thins next) : next.Bounded := by
  intro owner name value found
  rw [thins.length]
  exact bounded owner name value (thins.field? found)

theorem extended (bounded : heap.Bounded) (type : String) (isExternal : Bool) :
    (heap.extended type isExternal).Bounded := by
  intro owner name value found
  rw [field?_extended] at found
  rw [length_objects_extended]
  exact Nat.lt_succ_of_lt (bounded owner name value found)

theorem assign (bounded : heap.Bounded) (inside : owner < heap.objects.length)
    {value : Option Ref} (valid : ∀ ref ∈ value, ref < heap.objects.length) :
    (heap.update owner (.assign name value)).Bounded := by
  intro other field held found
  rw [length_objects_update]
  rw [field?_assign inside] at found
  split at found
  · exact valid held found
  · exact bounded other field held found

theorem setField (bounded : heap.Bounded) (owner : Option Ref) (name : String)
    (value : Option Ref) : (ending (Heap.setField owner name value heap)).Bounded := by
  rcases setField_thins heap owner name value with kept | ⟨owner, _, inside, stored, assigned⟩
  · exact bounded.thins kept
  · exact (bounded.assign inside stored).thins assigned

/-- Only objects of the store are assigned. -/
theorem lt_of_setField (bounded : heap.Bounded) {value : Option Ref}
    (set : Heap.setField (some owner) name value heap = .ok () next) :
    owner < heap.objects.length ∧ ∀ ref ∈ value, ref < heap.objects.length := by
  rcases setField_cases heap (some owner) name value with
    ⟨error, refused, _⟩ | ⟨_, ⟨⟩, present, ⟨same, _⟩ | ⟨_, available, _⟩⟩
  · rw [set] at refused
    cases refused
  · refine ⟨lt_of_not_released present, fun ref stored => ?_⟩
    rw [← same] at stored
    exact bounded owner name ref stored
  · refine ⟨lt_of_not_released present, ?_⟩
    rintro ref ⟨⟩
    exact lt_of_not_released available

end Bounded

namespace Secluded

variable {origin later : Ref → Ref → String → Prop} {assigned more : Ref → Prop}

/-- What the root leads to is owned from inside only. -/
theorem closed (secluded : Secluded origin assigned heap root) (leads : heap.Leads root object)
    (apart : object ≠ root) (found : heap.field? owner name = some object) :
    heap.Leads root owner := by
  rcases leads.cases_tail with same | ⟨last, before, field, owns⟩
  · exact absurd same.symm apart.symm
  · obtain ⟨_, _, _, only⟩ := secluded.sole leads apart
    rw [(only owner name found).1, ← (only last field owns).1]
    exact before

/-- Two secluded objects lead to nothing in common. -/
theorem disjoint {other : Ref} (one : Secluded origin assigned heap root)
    (two : Secluded origin assigned heap other) (different : root ≠ other)
    (leads : heap.Leads root object) : ¬heap.Leads other object := by
  induction leads with
  | refl =>
      intro leads
      rcases leads.cases_tail with same | ⟨last, _, field, owns⟩
      · exact different same
      · exact one.unowned last field owns
  | @tail middle last before owns ih =>
      intro leads
      obtain ⟨field, owns⟩ := owns
      -- the one owner on the way from the first root is also on the way from the second
      by_cases same : last = other
      · subst same
        exact two.unowned middle field owns
      · exact ih (two.closed leads same owns)

theorem weaken (secluded : Secluded origin assigned heap root)
    (kept : ∀ object owner name, origin object owner name → later object owner name)
    (still : ∀ object, heap.Leads root object → more object → assigned object) :
    Secluded later more heap root where
  unowned := secluded.unowned
  isExternal := secluded.isExternal
  unassigned leads now := secluded.unassigned leads (still _ leads now)
  sole leads apart := by
    obtain ⟨owner, name, made, only⟩ := secluded.sole leads apart
    exact ⟨owner, name, kept _ _ _ made, only⟩

theorem thins (secluded : Secluded origin assigned heap root) (thins : heap.Thins next) :
    Secluded origin assigned next root where
  unowned owner name found := secluded.unowned owner name (thins.field? found)
  isExternal leads := by
    rw [(thins.object _).isExternal]
    exact secluded.isExternal (leads_mono (fun _ _ _ => thins.field?) leads)
  unassigned leads := secluded.unassigned (leads_mono (fun _ _ _ => thins.field?) leads)
  sole leads apart := by
    obtain ⟨owner, name, made, only⟩ :=
      secluded.sole (leads_mono (fun _ _ _ => thins.field?) leads) apart
    exact ⟨owner, name, made, fun other field found => only other field (thins.field? found)⟩

theorem extended (secluded : Secluded origin assigned heap root) (bounded : heap.Bounded)
    (inside : root < heap.objects.length) (type : String) (isExternal : Bool) :
    Secluded origin assigned (heap.extended type isExternal) root where
  unowned owner name := by
    rw [field?_extended]
    exact secluded.unowned owner name
  isExternal leads := by
    have before := leads_extended leads
    rw [object_extended, if_neg (Nat.ne_of_lt (bounded.lt_of_leads inside before))]
    exact secluded.isExternal before
  unassigned leads := secluded.unassigned (leads_extended leads)
  sole leads apart := by
    obtain ⟨owner, name, made, only⟩ := secluded.sole (leads_extended leads) apart
    refine ⟨owner, name, made, fun other field found => ?_⟩
    rw [field?_extended] at found
    exact only other field found

/-- An assignment of what the root does not lead to, to what it does not lead
to. -/
theorem assign (secluded : Secluded origin assigned heap root)
    (inside : owner < heap.objects.length) {value : Option Ref}
    (ownerApart : ¬heap.Leads root owner) (valueApart : ∀ ref ∈ value, ¬heap.Leads root ref) :
    Secluded origin assigned (heap.update owner (.assign name value)) root where
  unowned other field found := by
    rw [field?_assign inside] at found
    split at found
    · exact valueApart root found .refl
    · exact secluded.unowned other field found
  isExternal leads := by
    rw [isExternal_assign]
    exact secluded.isExternal (leads_assign inside ownerApart leads)
  unassigned leads := secluded.unassigned (leads_assign inside ownerApart leads)
  sole leads apart := by
    have before := leads_assign inside ownerApart leads
    obtain ⟨owner, name, made, only⟩ := secluded.sole before apart
    refine ⟨owner, name, made, fun other field found => ?_⟩
    rw [field?_assign inside] at found
    split at found
    · exact absurd before (valueApart _ found)
    · exact only other field found

/-- However an assignment ends, it has nothing to do with the tree if neither its
owner nor its value has. -/
theorem setField (secluded : Secluded origin assigned heap root) (name : String)
    {value : Option Ref} (ownerApart : ¬heap.Leads root owner)
    (valueApart : ∀ ref ∈ value, ¬heap.Leads root ref) :
    Secluded origin assigned (ending (Heap.setField (some owner) name value heap)) root := by
  rcases setField_thins heap (some owner) name value with kept | ⟨_, ⟨⟩, inside, _, set⟩
  · exact secluded.thins kept
  · exact (secluded.assign inside ownerApart valueApart).thins set

/-- Where an object is made up in a field, the root leads to it or to what it
led to before. -/
theorem leads_materialize (within : owner < heap.objects.length)
    (leads : ((heap.extended type true).update owner
      (.assign name (some heap.objects.length))).Leads root object) :
    object = heap.objects.length ∨ heap.Leads root object := by
  have within : owner < (heap.extended type true).objects.length := by
    rw [length_objects_extended]
    exact Nat.lt_succ_of_lt within
  induction leads with
  | refl => exact .inr .refl
  | @tail middle last _ owns ih =>
      obtain ⟨field, found⟩ := owns
      rw [field?_assign within] at found
      split at found
      next => exact .inl (Option.some.inj found).symm
      next =>
        rw [field?_extended] at found
        rcases ih with new | before
        · rw [new] at found
          exact absurd (lt_of_field? found) (Nat.lt_irrefl _)
        · exact .inr (before.tail ⟨field, found⟩)

/-- An object that is made up in some field becomes part of the tree, or has
nothing to do with it. -/
theorem materialize (secluded : Secluded origin assigned heap root) (bounded : heap.Bounded)
    (inside : root < heap.objects.length) (within : owner < heap.objects.length)
    (unused : ¬assigned heap.objects.length) :
    Secluded (fun object into field => origin object into field ∨
        object = heap.objects.length ∧ into = owner ∧ field = name) assigned
      ((heap.extended type true).update owner (.assign name (some heap.objects.length))) root := by
  have stored : owner < (heap.extended type true).objects.length := by
    rw [length_objects_extended]
    exact Nat.lt_succ_of_lt within
  have old : ∀ {object}, heap.Leads root object → object ≠ heap.objects.length :=
    fun leads => Nat.ne_of_lt (bounded.lt_of_leads inside leads)
  constructor
  · intro other field found
    rw [field?_assign stored, field?_extended] at found
    split at found
    · exact old .refl (Option.some.inj found).symm
    · exact secluded.unowned other field found
  · intro object leads
    rw [isExternal_assign, object_extended]
    rcases leads_materialize within leads with new | before
    · rw [if_pos new]
      rfl
    · rw [if_neg (old before)]
      exact secluded.isExternal before
  · intro object leads
    rcases leads_materialize within leads with new | before
    · rw [new]
      exact unused
    · exact secluded.unassigned before
  · intro object leads apart
    rcases leads_materialize within leads with new | before
    · refine ⟨owner, name, .inr ⟨new, rfl, rfl⟩, fun other field found => ?_⟩
      rw [field?_assign stored, field?_extended] at found
      split at found
      next here => exact here
      next =>
        have small := bounded other field object found
        rw [new] at small
        exact absurd small (Nat.lt_irrefl _)
    · obtain ⟨into, field, made, only⟩ := secluded.sole before apart
      refine ⟨into, field, .inl made, fun other field found => ?_⟩
      rw [field?_assign stored, field?_extended] at found
      split at found
      next => exact absurd (Option.some.inj found).symm (old before)
      next => exact only other field found

end Secluded

end Custody.Heap
