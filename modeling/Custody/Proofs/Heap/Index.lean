import Custody.Proofs.Heap.Decay

/-!
# The index of live objects

Identifiers ascend with the places of objects in the store, and the index lists
exactly the objects that are not released.  No operation of a heap disturbs this.

A heap is tidy if its released objects own nothing.  There is one way to lose
this: an object that only holds itself is released when its own field is given
another occupant, and keeps that occupant.
-/

namespace Custody.Heap

variable {heap : Heap} {ref owner value occupant : Ref} {name : String}

/-- Identifiers are unique, and the index lists the objects that are there. -/
structure Indexed (heap : Heap) : Prop where
  ascending : ∀ {left right}, left < right → right < heap.objects.length →
    (heap.object left).id < (heap.object right).id
  bounded : ∀ {ref}, ref < heap.objects.length → (heap.object ref).id ≤ heap.lastId
  live : ∀ {id ref}, heap.live.find? id = some ref ↔
    (heap.object ref).released = false ∧ (heap.object ref).id = id

namespace Indexed

theorem injective (indexed : heap.Indexed) {left right : Ref} (one : left < heap.objects.length)
    (two : right < heap.objects.length) (same : (heap.object left).id = (heap.object right).id) :
    left = right := by
  rcases Nat.lt_trichotomy left right with less | equal | greater
  · have apart := indexed.ascending less two
    omega
  · exact equal
  · have apart := indexed.ascending greater one
    omega

/-- An object is live exactly if it is not released. -/
theorem isLive_iff (indexed : heap.Indexed) (inside : ref < heap.objects.length) :
    heap.isLive (heap.object ref).id = true ↔ (heap.object ref).released = false := by
  simp only [isLive, Table.contains, Option.isSome_iff_exists, indexed.live]
  constructor
  · rintro ⟨other, present, same⟩
    rw [← indexed.injective (lt_of_not_released present) inside same]
    exact present
  · intro present
    exact ⟨ref, present, rfl⟩

theorem startingAfter (lastId : Nat) : (startingAfter lastId).Indexed where
  ascending _ inside := absurd inside (Nat.not_lt_zero _)
  bounded inside := absurd inside (Nat.not_lt_zero _)
  live := by
    intro id ref
    constructor
    · intro found
      cases found
    · rintro ⟨present, _⟩
      exact absurd (lt_of_not_released present) (Nat.not_lt_zero _)

theorem extended (indexed : heap.Indexed) (type : String) (isExternal : Bool) :
    (heap.extended type isExternal).Indexed where
  ascending := by
    intro left right less inside
    rw [length_objects_extended] at inside
    rw [object_extended, object_extended]
    split
    next last => omega
    next =>
      split
      next last =>
        have before : (heap.object left).id ≤ heap.lastId := indexed.bounded (by omega)
        exact Nat.lt_succ_of_le before
      next other => exact indexed.ascending less (by omega)
  bounded := by
    intro ref inside
    rw [length_objects_extended] at inside
    rw [object_extended]
    split
    next => exact Nat.le_refl _
    next other => exact Nat.le_succ_of_le (indexed.bounded (by omega))
  live := by
    intro id ref
    have inserted : (heap.extended type isExternal).live.find? id =
        if compare id (heap.lastId + 1) = .eq then some heap.objects.length
        else heap.live.find? id := Table.find?_insert
    rw [inserted, object_extended]
    simp only [Std.LawfulEqCmp.compare_eq_iff_eq]
    split
    next newest =>
      simp only [Option.some.injEq]
      constructor
      · rintro rfl
        simp [Object.fresh, newest]
      · rintro ⟨present, same⟩
        split at present
        next last => exact last.symm
        next other =>
          have inside := lt_of_not_released present
          have before := indexed.bounded inside
          rw [if_neg other] at same
          omega
    next older =>
      rw [indexed.live]
      split
      next last =>
        subst last
        simp only [object_of_le (Nat.le_refl _), Object.gone, Object.fresh, Bool.true_eq_false,
          false_and, true_and, false_iff]
        exact fun same => older same.symm
      next => exact Iff.rfl

/-- A change that leaves the identifier of an object and its presence alone keeps
the index. -/
theorem update {change : Object → Object} (indexed : heap.Indexed)
    (id : ∀ object, (change object).id = object.id)
    (released : ∀ object, (change object).released = object.released) :
    (heap.update ref change).Indexed := by
  have same : ∀ other, ((heap.update ref change).object other).id = (heap.object other).id ∧
      ((heap.update ref change).object other).released = (heap.object other).released := by
    intro other
    rcases object_update_cases heap ref change other with kept | changed
    · rw [kept]
      exact ⟨rfl, rfl⟩
    · rw [changed]
      exact ⟨id _, released _⟩
  constructor
  · intro left right less inside
    rw [(same left).1, (same right).1]
    exact indexed.ascending less (by simpa using inside)
  · intro other inside
    rw [(same other).1]
    exact indexed.bounded (by simpa using inside)
  · intro id other
    rw [(same other).1, (same other).2]
    exact indexed.live

theorem remove (indexed : heap.Indexed) (present : (heap.object ref).released = false) :
    (heap.remove ref).Indexed := by
  have inside := lt_of_not_released present
  have object : ∀ other, (heap.remove ref).object other =
      if other = ref then (heap.object ref).bury else heap.object other :=
    object_update_of_lt inside
  have id : ∀ other, ((heap.remove ref).object other).id = (heap.object other).id := by
    intro other
    rw [object]
    split
    next same => rw [same]; rfl
    next => rfl
  have length : (heap.remove ref).objects.length = heap.objects.length := length_objects_update
  constructor
  · intro left right less inside
    rw [id, id]
    exact indexed.ascending less (length ▸ inside)
  · intro other inside
    rw [id]
    exact indexed.bounded (length ▸ inside)
  · intro key other
    have erased : (heap.remove ref).live.find? key =
        if compare (heap.object ref).id key = .eq then none else heap.live.find? key :=
      Table.find?_erase
    rw [erased, id, object]
    simp only [Std.LawfulEqCmp.compare_eq_iff_eq]
    split
    next here =>
      simp only [reduceCtorEq, false_iff, not_and]
      intro kept same
      split at kept
      next => cases kept
      next apart =>
        exact apart (indexed.injective (lt_of_not_released kept) inside (same.trans here.symm))
    next elsewhere =>
      rw [indexed.live]
      split
      next same =>
        subst same
        simp only [Object.bury, Bool.true_eq_false, false_and, iff_false, not_and]
        exact fun _ => elsewhere
      next => exact Iff.rfl

theorem stable : Stable Indexed where
  raise _ indexed := indexed.update (fun _ => rfl) fun _ => rfl
  lower _ indexed := indexed.update (fun _ => rfl) fun _ => rfl
  remove _ present indexed := indexed.remove present
  pending _ indexed := ⟨indexed.ascending, indexed.bounded, indexed.live⟩

theorem setField (indexed : heap.Indexed) (owner : Option Ref) (name : String)
    (value : Option Ref) : (ending (Heap.setField owner name value heap)).Indexed :=
  stable.setField indexed (fun _ _ _ => indexed.update (fun _ => rfl) fun _ => rfl)
    fun _ _ _ _ _ _ _ _ _ kept => kept.update (fun _ => rfl) fun _ => rfl

end Indexed

/-! ## Tidy heaps -/

/-- Released objects own nothing. -/
def Tidy (heap : Heap) : Prop :=
  ∀ ref, (heap.object ref).released = true → (heap.object ref).fields = ∅

/-- An object that only holds itself gives up the field by which it does so for
another occupant. -/
def Orphans (heap : Heap) (owner : Option Ref) (name : String) (value : Option Ref) : Prop :=
  ∃ object occupant, owner = some object ∧ value = some occupant ∧ occupant ≠ object ∧
    (heap.object object).released = false ∧ (heap.object occupant).released = false ∧
    heap.field? object name = some object ∧ (heap.object object).count = 1

instance decidableOrphans (heap : Heap) (owner : Option Ref) (name : String) (value : Option Ref) :
    Decidable (heap.Orphans owner name value) :=
  match owner, value with
  | some object, some occupant =>
      decidable_of_iff
        (occupant ≠ object ∧ (heap.object object).released = false ∧
          (heap.object occupant).released = false ∧ heap.field? object name = some object ∧
          (heap.object object).count = 1)
        ⟨fun orphans => ⟨object, occupant, rfl, rfl, orphans⟩,
          fun ⟨_, _, here, there, orphans⟩ => by cases here; cases there; exact orphans⟩
  | none, _ => .isFalse fun ⟨_, _, owned, _⟩ => nomatch owned
  | some _, none => .isFalse fun ⟨_, _, _, given, _⟩ => nomatch given

namespace Tidy

theorem startingAfter (lastId : Nat) : (startingAfter lastId).Tidy := by
  intro ref _
  rw [object_of_le (Nat.zero_le _)]
  rfl

theorem extended (tidy : heap.Tidy) (type : String) (isExternal : Bool) :
    (heap.extended type isExternal).Tidy := by
  intro ref
  rw [object_extended]
  split
  · exact fun _ => rfl
  · exact tidy ref

theorem update {change : Object → Object} (tidy : heap.Tidy)
    (kept : (change (heap.object ref)).released = true → (change (heap.object ref)).fields = ∅) :
    (heap.update ref change).Tidy := by
  intro other gone
  rcases Nat.lt_or_ge ref heap.objects.length with inside | outside
  · rw [object_update_of_lt inside] at gone ⊢
    split
    next same =>
      rw [if_pos same] at gone
      exact kept gone
    next apart =>
      rw [if_neg apart] at gone
      exact tidy other gone
  · have same : (heap.update ref change).objects = heap.objects :=
      List.modify_eq_self outside
    have object : (heap.update ref change).object other = heap.object other := by
      simp only [Heap.object, same]
    rw [object] at gone ⊢
    exact tidy other gone

theorem stable : Stable Tidy where
  raise ref tidy := tidy.update (tidy ref)
  lower ref tidy := tidy.update (tidy ref)
  remove ref _ tidy := by
    have buried : (Heap.update _ ref .bury).Tidy := tidy.update fun _ => rfl
    exact buried
  pending _ tidy := tidy

/-- Where the occupant of a field goes, its owner stays unless it was its own last
holder. -/
theorem present_vacate {middle : Heap} (present : (heap.object owner).released = false)
    (held : ¬(heap.field? owner name = some owner ∧ (heap.object owner).count = 1))
    (vacated : vacate owner name (heap.field? owner name) heap = .ok () middle) :
    (middle.object owner).released = false := by
  have inside := lt_of_not_released present
  have taken : (heap.update owner (.withoutField name)).object owner =
      (heap.object owner).withoutField name := object_update_self inside
  cases found : heap.field? owner name with
  | none =>
      rw [found] at vacated
      cases vacated
      exact present
  | some occupant =>
      rw [found] at vacated
      change release occupant (heap.update owner (.withoutField name)) = .ok () middle at vacated
      by_cases same : occupant = owner
      · subst same
        have many : (heap.object occupant).count ≠ 1 := fun single => held ⟨found, single⟩
        have still : ((heap.update occupant (.withoutField name)).object occupant).count ≠ 1 := by
          rw [taken]
          exact many
        unfold release at vacated
        simp only [beq_iff_eq, still, ↓reduceIte] at vacated
        split at vacated
        · cases vacated
        · cases vacated
          rw [object_update_self (by simpa using inside), taken]
          exact present
      · have kept : (ending (release occupant (heap.update owner (.withoutField name)))).object
            owner = (heap.update owner (.withoutField name)).object owner :=
          object_release_of_ne (Ne.symm same)
        rw [vacated, ending_ok] at kept
        rw [kept, taken]
        exact present

/-- Setting a field keeps a heap tidy but for one case. -/
theorem setField (tidy : heap.Tidy) {owner value : Option Ref}
    (fine : ¬heap.Orphans owner name value) :
    (ending (Heap.setField owner name value heap)).Tidy := by
  refine stable.setField tidy ?_ ?_
  · intro object _ present
    refine tidy.update fun gone => ?_
    change (heap.object object).released = true at gone
    rw [present] at gone
    cases gone
  · intro object occupant middle isOwner isValue present different available vacated kept
    subst isOwner isValue
    refine kept.update fun gone => ?_
    have stays : (middle.object object).released = false := by
      refine present_vacate present ?_ vacated
      rintro ⟨self, single⟩
      exact fine ⟨object, occupant, rfl, rfl, fun same => different (same ▸ self), present,
        available, self, single⟩
    change (middle.object object).released = true at gone
    rw [stays] at gone
    cases gone

/-- A released object keeps its fields for good. -/
theorem stable_of_released (owner : Ref) (fields : Table String Ref) :
    Stable fun heap =>
      (heap.object owner).released = true ∧ (heap.object owner).fields = fields where
  raise := by
    intro heap ref gone
    rcases object_update_cases heap ref .raise owner with same | changed
    · rw [same]
      exact gone
    · rw [changed]
      exact gone
  lower := by
    intro heap ref gone
    rcases object_update_cases heap ref .lower owner with same | changed
    · rw [same]
      exact gone
    · rw [changed]
      exact gone
  remove := by
    intro heap ref present gone
    have apart : owner ≠ ref := by
      intro same
      rw [same, present] at gone
      cases gone.1
    have kept : (heap.remove ref).object owner = heap.object owner := object_update_of_ne apart
    rw [kept]
    exact gone
  pending _ gone := gone

/-- In the one case left out, the heap is not tidy afterwards. -/
theorem not_setField {owner value : Option Ref} (orphans : heap.Orphans owner name value) :
    ¬(ending (Heap.setField owner name value heap)).Tidy := by
  obtain ⟨object, occupant, rfl, rfl, apart, present, available, self, single⟩ := orphans
  have inside := lt_of_not_released present
  rcases setField_cases heap (some object) name (some occupant) with
    ⟨error, refused, _, reason⟩ | ⟨_, ⟨⟩, _, ⟨same, _⟩ | ⟨_, _, moved⟩⟩
  · rcases reason object rfl with gone | gone
    · rw [present] at gone
      cases gone
    · rw [show heap.isReleased (some occupant) = false from available] at gone
      cases gone
  · rw [self] at same
    cases same
    exact absurd rfl apart
  · -- The owner is removed when it is taken out of its field, before the field is filled again.
    let taken := heap.update object (.withoutField name)
    have owner : taken.object object = (heap.object object).withoutField name :=
      object_update_self inside
    let middle := (taken.update object .lower).remove object
    have vacated : vacate object name (heap.field? object name) heap = .ok () middle := by
      rw [self]
      change release object taken = .ok () middle
      have count : (taken.object object).count = 1 := by
        rw [owner]
        exact single
      have there : (taken.object object).released = false := by
        rw [owner]
        exact present
      simp [release, count, there, middle]
    have buried : middle.object object = ((taken.update object .lower).object object).bury :=
      object_update_self (by simpa [taken] using inside)
    let full := middle.update object (.withField name occupant)
    have filled : (full.object object).released = true ∧
        (full.object object).fields = (∅ : Table String Ref).insert name occupant := by
      have stored : full.object object = (middle.object object).withField name occupant :=
        object_update_self (by simpa [middle, remove, taken] using inside)
      rw [stored, buried]
      exact ⟨rfl, rfl⟩
    have stable := stable_of_released object ((∅ : Table String Ref).insert name occupant)
    have last := stable.drain (stable.raise occupant filled)
    rw [moved, bind_of_ok vacated]
    intro tidy
    have empty := tidy object last.1
    change ((ending (drain (full.update occupant .raise))).object object).fields = ∅ at empty
    rw [last.2] at empty
    cases empty

end Tidy

end Custody.Heap
