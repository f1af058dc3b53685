import Custody.Proofs.Data.Occurrences
import Custody.Proofs.Heap.Decay

/-!
# Balanced heaps

A heap is balanced with respect to a list of holders outside the heap if the
count of every object is the number of times it is held: by the holders outside,
by fields, and by releases that are pending.  Fields of released objects are
counted like all others; most released objects have none.

Every operation of the heap moves references between these three places.  The
elementary changes are treated first, one lemma for each, and the operations are
put together from them.  In a balanced heap no release is refused, so draining
always ends well.
-/

namespace Custody.Heap

variable {heap : Heap} {held : List Ref} {ref owner value occupant : Ref} {name : String}

/-- How often fields and pending releases refer to an object. -/
def references (heap : Heap) (ref : Ref) : Nat :=
  heap.fieldValues.count ref + heap.pending.count ref

/-- The count of every object is the number of its holders, and a released object
has none. -/
structure Balanced (heap : Heap) (held : List Ref) : Prop where
  count : ∀ ref, (heap.object ref).count = held.count ref + heap.references ref
  retired : ∀ ref, (heap.object ref).released = true → (heap.object ref).count = 0

/-- Changing an object exchanges the occupants of its fields. -/
theorem count_fieldValues_update (change : Object → Object) (inside : ref < heap.objects.length)
    (other : Ref) :
    (heap.update ref change).fieldValues.count other +
        (heap.object ref).fields.values.count other =
      heap.fieldValues.count other + (change (heap.object ref)).fields.values.count other := by
  rw [object_of_lt inside]
  exact count_flatMap_modify (fun object => object.fields.values) change heap.objects ref inside
    other

/-- A change that leaves the fields of an object alone leaves all references as
they are. -/
theorem references_update_of_fields_eq {change : Object → Object}
    (inside : ref < heap.objects.length)
    (same : (change (heap.object ref)).fields = (heap.object ref).fields) (other : Ref) :
    (heap.update ref change).references other = heap.references other := by
  have moved := count_fieldValues_update change inside other
  rw [same] at moved
  have pending : (heap.update ref change).pending = heap.pending := rfl
  simp only [references, pending]
  omega

@[simp] theorem references_extended (heap : Heap) (type : String) (isExternal : Bool) (ref : Ref) :
    (heap.extended type isExternal).references ref = heap.references ref := by
  have fresh : (Object.fresh (heap.lastId + 1) type isExternal).fields.values = [] := rfl
  simp [references, fieldValues, extended, fresh]

/-! ## Elementary changes -/

/-- Letting an object go leaves any other one there that was there. -/
theorem isReleased_letGo {old value : Option Ref} (different : old ≠ value)
    (available : heap.isReleased value = false) :
    (ending (letGo old heap)).isReleased value = false := by
  cases old with
  | none => exact available
  | some old =>
      cases value with
      | none => rfl
      | some value =>
          have apart : value ≠ old := fun same => different (by rw [same])
          change ((ending (release old heap)).object value).released = false
          rw [object_release_of_ne apart]
          exact available

theorem isReleased_vacate {value : Option Ref} (inside : owner < heap.objects.length)
    (different : heap.field? owner name ≠ value) (available : heap.isReleased value = false) :
    (ending (vacate owner name (heap.field? owner name) heap)).isReleased value = false := by
  cases found : heap.field? owner name with
  | none => exact available
  | some occupant =>
      rw [found] at different
      have kept : (heap.update owner (.withoutField name)).isReleased value = false := by
        cases value with
        | none => rfl
        | some value =>
            change ((heap.update owner (.withoutField name)).object value).released = false
            rw [object_update_of_lt inside]
            split
            next same => subst same; exact available
            next => exact available
      exact isReleased_letGo different kept

namespace Balanced

theorem congr {others : List Ref} (balanced : heap.Balanced held)
    (same : ∀ ref, held.count ref = others.count ref) : heap.Balanced others where
  count ref := by rw [balanced.count, same]
  retired := balanced.retired

theorem startingAfter (lastId : Nat) : (startingAfter lastId).Balanced [] := by
  constructor
  · intro ref
    rw [object_of_le (Nat.zero_le _)]
    rfl
  · intro ref _
    rw [object_of_le (Nat.zero_le _)]
    rfl

/-- Whatever is held has a count, so it is not released. -/
theorem not_released (balanced : heap.Balanced held) (positive : 0 < held.count ref) :
    (heap.object ref).released = false := by
  have counted := balanced.count ref
  cases flag : (heap.object ref).released with
  | false => rfl
  | true =>
      have none := balanced.retired ref flag
      omega

theorem not_released_of_mem (balanced : heap.Balanced held) (member : ref ∈ held) :
    (heap.object ref).released = false :=
  balanced.not_released (List.count_pos_iff.2 member)

/-- Whatever a field holds is not released. -/
theorem not_released_of_field (balanced : heap.Balanced held)
    (found : heap.field? owner name = some occupant) :
    (heap.object occupant).released = false := by
  have owned : occupant ∈ heap.fieldValues := by
    have inside := lt_of_field? found
    rw [field?, object_of_lt inside, Table.find?_eq_some_iff] at found
    rw [fieldValues, List.mem_flatMap]
    exact ⟨heap.objects[owner], List.getElem_mem inside,
      List.mem_map_of_mem (f := (·.2)) found⟩
  have counted := balanced.count occupant
  have positive := List.count_pos_iff.2 owned
  cases flag : (heap.object occupant).released with
  | false => rfl
  | true =>
      have none := balanced.retired occupant flag
      unfold references at counted
      omega

/-- A new object is held by nobody. -/
theorem extended (balanced : heap.Balanced held) (type : String) (isExternal : Bool) :
    (heap.extended type isExternal).Balanced held := by
  constructor
  · intro ref
    have counted := balanced.count ref
    rw [object_extended, references_extended]
    split
    next last =>
      rw [last, object_of_le (Nat.le_refl _)] at counted
      rw [last]
      exact counted
    next => exact counted
  · intro ref
    rw [object_extended]
    split
    next => simp [Object.fresh]
    next => exact balanced.retired ref

/-- Taking a reference adds a holder. -/
theorem raise (balanced : heap.Balanced held) (present : (heap.object ref).released = false) :
    (heap.update ref .raise).Balanced (ref :: held) := by
  have inside := lt_of_not_released present
  constructor
  · intro other
    rw [references_update_of_fields_eq inside rfl, object_update_of_lt inside, List.count_cons]
    have counted := balanced.count other
    split
    next same =>
      subst same
      simp only [Object.raise, BEq.rfl, ↓reduceIte]
      omega
    next different =>
      simp only [beq_iff_eq, Ne.symm different, ↓reduceIte]
      omega
  · intro other
    rw [object_update_of_lt inside]
    split
    next same =>
      intro released
      rw [show (heap.object ref).raise.released = (heap.object ref).released from rfl,
        present] at released
      cases released
    next => exact balanced.retired other

/-- Dropping a reference takes a holder away. -/
theorem lower (balanced : heap.Balanced (ref :: held)) :
    (heap.update ref .lower).Balanced held := by
  have present := balanced.not_released_of_mem (.head _)
  have inside := lt_of_not_released present
  constructor
  · intro other
    rw [references_update_of_fields_eq inside rfl, object_update_of_lt inside]
    have counted := balanced.count other
    rw [List.count_cons] at counted
    split
    next same =>
      subst same
      simp only [Object.lower, BEq.rfl, ↓reduceIte] at counted ⊢
      omega
    next different =>
      simp only [beq_iff_eq, Ne.symm different, ↓reduceIte] at counted
      omega
  · intro other
    rw [object_update_of_lt inside]
    split
    next same =>
      intro released
      rw [show (heap.object ref).lower.released = (heap.object ref).released from rfl,
        present] at released
      cases released
    next => exact balanced.retired other

/-- Removing an object turns its fields into pending releases. -/
theorem remove (balanced : heap.Balanced held) (inside : ref < heap.objects.length)
    (unused : (heap.object ref).count = 0) : (heap.remove ref).Balanced held := by
  have objects : ∀ other, (heap.remove ref).object other =
      (heap.update ref .bury).object other := fun _ => rfl
  constructor
  · intro other
    have moved := count_fieldValues_update .bury inside other
    have counted := balanced.count other
    have buried : (heap.object ref).bury.fields.values = [] := rfl
    have fields : (heap.remove ref).fieldValues = (heap.update ref .bury).fieldValues := rfl
    have pending : (heap.remove ref).pending =
        heap.pending ++ (heap.object ref).fields.values := rfl
    rw [buried, List.count_nil] at moved
    simp only [objects, references, fields, pending, List.count_append] at counted ⊢
    rw [object_update_of_lt inside]
    split
    next same =>
      subst same
      simp only [Object.bury]
      omega
    next => omega
  · intro other
    rw [objects, object_update_of_lt inside]
    split
    next => exact fun _ => unused
    next => exact balanced.retired other

/-- Taking the occupant out of a field leaves it held by whoever took it. -/
theorem withoutField (balanced : heap.Balanced held)
    (found : heap.field? owner name = some occupant) :
    (heap.update owner (.withoutField name)).Balanced (occupant :: held) := by
  have inside : owner < heap.objects.length := lt_of_field? found
  constructor
  · intro other
    have moved := count_fieldValues_update (.withoutField name) inside other
    have taken := Table.count_values_erase found other
    have counted := balanced.count other
    have fields : ((heap.object owner).withoutField name).fields =
        (heap.object owner).fields.erase name := rfl
    have pending : (heap.update owner (.withoutField name)).pending = heap.pending := rfl
    have kept : ((heap.update owner (.withoutField name)).object other).count =
        (heap.object other).count := by
      rw [object_update_of_lt inside]
      split
      next same => rw [same]; rfl
      next => rfl
    rw [fields] at moved
    rw [kept]
    simp only [references, pending, List.count_cons, List.count_nil] at counted taken ⊢
    omega
  · intro other
    rw [object_update_of_lt inside]
    split
    next same =>
      intro released
      exact balanced.retired owner released
    next => exact balanced.retired other

/-- Putting an object into a free field hands it over from its holder. -/
theorem withField (balanced : heap.Balanced (value :: held))
    (inside : owner < heap.objects.length) (free : heap.field? owner name = none) :
    (heap.update owner (.withField name value)).Balanced held := by
  constructor
  · intro other
    have moved := count_fieldValues_update (.withField name value) inside other
    have added : ((heap.object owner).fields.insert name value).values.count other =
        [value].count other + (heap.object owner).fields.values.count other :=
      Table.count_values_insert free other
    have counted := balanced.count other
    have fields : ((heap.object owner).withField name value).fields =
        (heap.object owner).fields.insert name value := rfl
    have pending : (heap.update owner (.withField name value)).pending = heap.pending := rfl
    have kept : ((heap.update owner (.withField name value)).object other).count =
        (heap.object other).count := by
      rw [object_update_of_lt inside]
      split
      next same => rw [same]; rfl
      next => rfl
    rw [fields] at moved
    rw [kept]
    simp only [references, pending, List.count_cons, List.count_nil] at counted added ⊢
    omega
  · intro other
    rw [object_update_of_lt inside]
    split
    next same =>
      intro released
      exact balanced.retired owner released
    next => exact balanced.retired other

/-- The first pending release turns into a holder. -/
theorem popPending {rest : List Ref} (balanced : heap.Balanced held)
    (due : heap.pending = ref :: rest) :
    { heap with pending := rest }.Balanced (ref :: held) := by
  constructor
  · intro other
    have counted := balanced.count other
    have fields : fieldValues { heap with pending := rest } = heap.fieldValues := rfl
    have object : object { heap with pending := rest } other = heap.object other := rfl
    simp only [references, due, object, fields, List.count_cons] at counted ⊢
    omega
  · exact balanced.retired

/-! ## Operations -/

/-- What is held can be released. -/
theorem release (balanced : heap.Balanced (ref :: held)) :
    ∃ next, Heap.release ref heap = .ok () next ∧ next.Balanced held := by
  have present := balanced.not_released_of_mem (.head _)
  have positive : (heap.object ref).count ≠ 0 := by
    have counted := balanced.count ref
    rw [List.count_cons_self] at counted
    omega
  have lowered := balanced.lower
  unfold Heap.release
  simp only [present, Bool.false_or, beq_iff_eq, positive, ↓reduceIte]
  split
  next single =>
    refine ⟨_, rfl, lowered.remove ?_ ?_⟩
    · simpa using lt_of_not_released present
    · rw [object_update_self (lt_of_not_released present)]
      simp [Object.lower, single]
  next => exact ⟨_, rfl, lowered⟩

/-- Draining a balanced heap never fails. -/
theorem drain (balanced : heap.Balanced held) :
    ∃ next, Heap.drain heap = .ok () next ∧ next.Balanced held ∧ next.pending = [] := by
  induction heap using Heap.drain.induct with
  | case1 heap settled =>
      exact ⟨heap, drain_of_settled settled, balanced, settled⟩
  | case2 heap ref rest due next released lighter ih =>
      obtain ⟨after, succeeded, after_balanced⟩ := (balanced.popPending due).release
      rw [released] at succeeded
      cases succeeded
      obtain ⟨last, drained, last_balanced, settled⟩ := ih after_balanced
      exact ⟨last, (drain_of_released due released).trans drained, last_balanced, settled⟩
  | case3 heap ref rest due error next failed =>
      obtain ⟨after, succeeded, _⟩ := (balanced.popPending due).release
      rw [failed] at succeeded
      cases succeeded

theorem unref (balanced : heap.Balanced (ref :: held)) :
    ∃ next, Heap.unref (some ref) heap = .ok () next ∧ next.Balanced held ∧ next.pending = [] := by
  obtain ⟨middle, released, middle_balanced⟩ := balanced.release
  obtain ⟨next, drained, next_balanced, settled⟩ := middle_balanced.drain
  refine ⟨next, ?_, next_balanced, settled⟩
  simp only [Heap.unref, bind, EStateM.bind, released]
  exact drained

/-- A reference can be taken to everything that is not released. -/
theorem ref_eq (balanced : heap.Balanced held) (ref : Ref) :
    (Heap.ref (some ref) heap = .error (.ref (heap.object ref).label) heap) ∨
      (Heap.ref (some ref) heap = .ok () (heap.update ref .raise) ∧
        (heap.update ref .raise).Balanced (ref :: held)) := by
  cases flag : (heap.object ref).released with
  | true => exact .inl (by simp [Heap.ref, flag])
  | false => exact .inr ⟨by simp [Heap.ref, flag], balanced.raise flag⟩

/-- Raising the count of an object and storing it in a free field goes together. -/
theorem occupy (balanced : heap.Balanced held) (inside : owner < heap.objects.length)
    (free : heap.field? owner name = none) (present : (heap.object value).released = false) :
    ((heap.update owner (.withField name value)).update value .raise).Balanced held := by
  have commuted : (heap.update owner (.withField name value)).update value .raise =
      (heap.update value .raise).update owner (.withField name value) :=
    update_comm fun _ => rfl
  rw [commuted]
  refine (balanced.raise present).withField (by simpa using inside) ?_
  rw [field?, object_update_of_lt (lt_of_not_released present)]
  split
  next same => rw [← same]; exact free
  next => exact free

/-- In a balanced heap a field is set, or nothing happens. -/
theorem setField (balanced : heap.Balanced held) (settled : heap.pending = [])
    (owner : Option Ref) (name : String) (value : Option Ref) :
    (∃ error, Heap.setField owner name value heap = .error error heap ∧
        error.isDoubleRelease = false ∧
        ∀ object, owner = some object →
          (heap.object object).released = true ∨ heap.isReleased value = true) ∨
      ∃ next, Heap.setField owner name value heap = .ok () next ∧ next.Balanced held ∧
        next.pending = [] := by
  rcases setField_cases heap owner name value with
    refused | ⟨owner, rfl, present, ⟨_, idle⟩ | ⟨different, available, moved⟩⟩
  · exact .inl refused
  · exact .inr ⟨heap, idle, balanced, settled⟩
  · refine .inr ?_
    have inside := lt_of_not_released present
    -- Whatever was in the field, it is out and released before the next one comes in.
    have vacated : ∃ middle, Heap.vacate owner name (heap.field? owner name) heap = .ok () middle ∧
        middle.Balanced held := by
      cases found : heap.field? owner name with
      | none => exact ⟨heap, rfl, balanced⟩
      | some occupant => exact (balanced.withoutField found).release
    have remains := isReleased_vacate inside different available
    obtain ⟨middle, vacated, middle_balanced⟩ := vacated
    have decayed := Decays.vacate inside name
    rw [vacated, ending_ok] at decayed remains
    have occupied : ∃ full, Heap.occupy owner name value middle = .ok () full ∧
        full.Balanced held := by
      cases value with
      | none => exact ⟨middle, rfl, middle_balanced⟩
      | some value =>
          refine ⟨_, rfl, middle_balanced.occupy ?_ ?_ ?_⟩
          · rw [decayed.length]
            simpa using inside
          · cases found : middle.field? owner name with
            | none => rfl
            | some occupant =>
                have before := decayed.thins.field? found
                simp [field?, object_update_self inside, Object.withoutField] at before
          · exact remains
    obtain ⟨full, occupied, full_balanced⟩ := occupied
    obtain ⟨next, drained, next_balanced, empty⟩ := full_balanced.drain
    refine ⟨next, ?_, next_balanced, empty⟩
    rw [moved, bind_of_ok vacated, bind_of_ok occupied, drained]

/-- In a balanced heap one object is let go for another, or nothing happens. -/
theorem transfer {old : Option Ref} (balanced : heap.Balanced (old.toList ++ held))
    (settled : heap.pending = []) (value : Option Ref) :
    (∃ error, Heap.transfer old value heap = .error error heap ∧
        error.isDoubleRelease = false ∧ heap.isReleased value = true) ∨
      ∃ next, Heap.transfer old value heap = .ok () next ∧
        next.Balanced (value.toList ++ held) ∧ next.pending = [] := by
  rcases transfer_cases heap old value with
    refused | ⟨rfl, idle⟩ | ⟨different, available, moved⟩
  · exact .inl refused
  · exact .inr ⟨heap, idle, balanced, settled⟩
  · refine .inr ?_
    have released : ∃ middle, Heap.letGo old heap = .ok () middle ∧ middle.Balanced held := by
      cases old with
      | none => exact ⟨heap, rfl, balanced⟩
      | some old => exact balanced.release
    obtain ⟨middle, released, middle_balanced⟩ := released
    have remains := isReleased_letGo different available
    rw [released, ending_ok] at remains
    have acquired : ∃ full, Heap.acquire value middle = .ok () full ∧
        full.Balanced (value.toList ++ held) := by
      cases value with
      | none => exact ⟨middle, rfl, middle_balanced⟩
      | some value => exact ⟨_, rfl, middle_balanced.raise remains⟩
    obtain ⟨full, acquired, full_balanced⟩ := acquired
    obtain ⟨next, drained, next_balanced, empty⟩ := full_balanced.drain
    refine ⟨next, ?_, next_balanced, empty⟩
    rw [moved, bind_of_ok released, bind_of_ok acquired, drained]

theorem discard (balanced : heap.Balanced held) (ref : Ref) : (heap.discard ref).Balanced held := by
  unfold Heap.discard
  split
  next => exact balanced
  next garbage =>
    simp only [Bool.or_eq_true, bne_iff_ne, ne_eq, not_or, Bool.not_eq_true,
      Decidable.not_not] at garbage
    exact balanced.remove (lt_of_not_released garbage.1) garbage.2

theorem sweep (balanced : heap.Balanced held) :
    ∃ next, Heap.sweep heap = .ok () next ∧ next.Balanced held ∧ next.pending = [] := by
  have cleared : ∀ (garbage : List Ref) {heap : Heap}, heap.Balanced held →
      (garbage.foldl Heap.discard heap).Balanced held := by
    intro garbage
    induction garbage with
    | nil => exact fun balanced => balanced
    | cons first rest ih => exact fun balanced => ih (balanced.discard first)
  rw [sweep_eq]
  exact (cleared _ balanced).drain

end Balanced

/-- The balance of a heap needs to be checked only where something is held. -/
theorem balanced_iff : heap.Balanced held ↔
    ∀ ref ∈ List.range heap.objects.length ++ (held ++ (heap.fieldValues ++ heap.pending)),
      (heap.object ref).count = held.count ref + heap.references ref ∧
        ((heap.object ref).released = true → (heap.object ref).count = 0) := by
  refine ⟨fun balanced ref _ => ⟨balanced.count ref, balanced.retired ref⟩, fun checked => ?_⟩
  have everywhere : ∀ ref, (heap.object ref).count = held.count ref + heap.references ref ∧
      ((heap.object ref).released = true → (heap.object ref).count = 0) := by
    intro ref
    by_cases listed : ref ∈ List.range heap.objects.length ++ (held ++ (heap.fieldValues ++ heap.pending))
    · exact checked ref listed
    · simp only [List.mem_append, List.mem_range, not_or, Nat.not_lt] at listed
      obtain ⟨outside, unheld, unowned, idle⟩ := listed
      rw [object_of_le outside, references, List.count_eq_zero.2 unheld,
        List.count_eq_zero.2 unowned, List.count_eq_zero.2 idle]
      exact ⟨rfl, fun _ => rfl⟩
  exact ⟨fun ref => (everywhere ref).1, fun ref => (everywhere ref).2⟩

instance : Decidable (heap.Balanced held) := decidable_of_iff _ balanced_iff.symm

end Custody.Heap
