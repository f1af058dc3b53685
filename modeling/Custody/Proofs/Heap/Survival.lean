import Custody.Proofs.Data.Descent
import Custody.Proofs.Heap.Balance
import Custody.Proofs.Heap.Chains
import Custody.Proofs.Heap.Index

/-!
# What survives

Objects that hold each other in a cycle are never freed, and neither is what they lead
to.  Once nobody else holds anything and the objects without holders have been swept,
nothing else is left: every object that is there has an owner that is there, so going
from owner to owner ends in a cycle.
-/

namespace Custody.Heap

open Relation

variable {heap next : Heap} {held : List Ref} {ref : Ref} {kept : Ref → Prop}

theorem exists_owner_of_mem_fieldValues (owned : ref ∈ heap.fieldValues) :
    ∃ owner, heap.Owns owner ref := by
  obtain ⟨object, member, value⟩ := List.mem_flatMap.1 owned
  obtain ⟨owner, inside, rfl⟩ := List.mem_iff_getElem.1 member
  refine ⟨owner, mem_values_iff_owns.1 ?_⟩
  rw [object_of_lt inside]
  exact value

/-- A release lowers the count, and removes an object that is not held any more. -/
theorem release_eq_ok (released : release ref heap = .ok () next) :
    (heap.object ref).released = false ∧ (heap.object ref).count ≠ 0 ∧
      (((heap.object ref).count = 1 ∧ next = (heap.update ref .lower).remove ref) ∨
        ((heap.object ref).count ≠ 1 ∧ next = heap.update ref .lower)) := by
  unfold release at released
  dsimp only at released
  split at released
  · cases released
  next allowed =>
    simp only [Bool.or_eq_true, beq_iff_eq, not_or, Bool.not_eq_true] at allowed
    refine ⟨allowed.1, allowed.2, ?_⟩
    split at released
    next single =>
      cases released
      exact .inl ⟨by simpa using single, rfl⟩
    next many =>
      cases released
      exact .inr ⟨by simpa using many, rfl⟩

/-! ## Properties that last -/

/-- A property of balanced heaps that releasing held objects and discarding others
keeps. -/
structure Lasting (property : Heap → Prop) : Prop where
  release : ∀ {heap next held ref}, heap.Balanced (ref :: held) → property heap →
    Heap.release ref heap = .ok () next → property next
  discard : ∀ {heap held} ref, heap.Balanced held → property heap → property (heap.discard ref)
  pending : ∀ {heap} pending, property heap → property { heap with pending }

theorem Stable.lasting {property : Heap → Prop} (stable : Stable property) : Lasting property where
  release := by
    intro heap next held ref _ holds released
    have kept := stable.release ref holds
    rw [released] at kept
    exact kept
  discard ref _ holds := stable.discard ref holds
  pending := stable.pending

namespace Lasting

variable {property : Heap → Prop} (lasting : Lasting property)

include lasting

theorem drain (balanced : heap.Balanced held) (holds : property heap)
    (drained : Heap.drain heap = .ok () next) : property next := by
  induction heap using Heap.drain.induct with
  | case1 heap settled =>
      rw [drain_of_settled settled] at drained
      cases drained
      exact holds
  | case2 heap ref rest due middle released lighter ih =>
      rw [drain_of_released due released] at drained
      have popped := balanced.popPending due
      obtain ⟨after, succeeded, after_balanced⟩ := popped.release
      cases released.symm.trans succeeded
      exact ih after_balanced (lasting.release popped (lasting.pending rest holds) released) drained
  | case3 heap ref rest due error middle refused =>
      rw [drain_of_refused due refused] at drained
      cases drained

theorem unref (balanced : heap.Balanced (ref :: held)) (holds : property heap)
    (dropped : Heap.unref (some ref) heap = .ok () next) : property next := by
  obtain ⟨_, middle, released, drained⟩ := bind_eq_ok dropped
  obtain ⟨after, succeeded, after_balanced⟩ := balanced.release
  cases released.symm.trans succeeded
  exact lasting.drain after_balanced (lasting.release balanced holds released) drained

theorem sweep (balanced : heap.Balanced held) (holds : property heap)
    (swept : Heap.sweep heap = .ok () next) : property next := by
  have cleared : ∀ (garbage : List Ref) {heap : Heap}, heap.Balanced held → property heap →
      (garbage.foldl Heap.discard heap).Balanced held ∧
        property (garbage.foldl Heap.discard heap) := by
    intro garbage
    induction garbage with
    | nil => exact fun balanced holds => ⟨balanced, holds⟩
    | cons first rest ih =>
        exact fun balanced holds =>
          ih (balanced.discard first) (lasting.discard first balanced holds)
  rw [sweep_eq] at swept
  obtain ⟨balanced, holds⟩ := cleared _ balanced holds
  exact lasting.drain balanced holds swept

end Lasting

/-! ## Objects that hold each other -/

/-- Objects that are there, each of them owned by one of them. -/
def Anchored (kept : Ref → Prop) (heap : Heap) : Prop :=
  ∀ ref, kept ref → (heap.object ref).released = false ∧ ∃ owner, kept owner ∧ heap.Owns owner ref

namespace Anchored

theorem congr (anchored : heap.Anchored kept)
    (same : ∀ ref, kept ref → (next.object ref).released = (heap.object ref).released ∧
      (next.object ref).fields = (heap.object ref).fields) : next.Anchored kept := by
  intro ref member
  obtain ⟨present, owner, listed, name, found⟩ := anchored ref member
  refine ⟨(same ref member).1.trans present, owner, listed, name, ?_⟩
  rw [field?, (same owner listed).2]
  exact found

/-- Such an object is held by a field, whoever else holds it. -/
theorem count_pos (anchored : heap.Anchored kept) (balanced : heap.Balanced held)
    (member : kept ref) : held.count ref < (heap.object ref).count := by
  obtain ⟨_, owner, _, owns⟩ := anchored ref member
  have positive := List.count_pos_iff.2 (mem_fieldValues_of_owns owns)
  have counted := balanced.count ref
  unfold references at counted
  omega

theorem discard (anchored : heap.Anchored kept) (balanced : heap.Balanced held) (ref : Ref) :
    (heap.discard ref).Anchored kept := by
  unfold Heap.discard
  split
  · exact anchored
  next garbage =>
    refine anchored.congr fun other member => ?_
    have apart : other ≠ ref := by
      rintro rfl
      have positive := anchored.count_pos balanced member
      simp only [Bool.or_eq_true, bne_iff_ne, ne_eq, not_or, Decidable.not_not] at garbage
      omega
    have unchanged : (heap.remove ref).object other = heap.object other :=
      object_update_of_ne apart
    rw [unchanged]
    exact ⟨rfl, rfl⟩

theorem lasting (kept : Ref → Prop) : Lasting (Anchored kept) where
  release := by
    intro heap next held ref balanced anchored released
    obtain ⟨present, _, either⟩ := release_eq_ok released
    refine anchored.congr fun other member => ?_
    by_cases same : other = ref
    · subst same
      -- Its owner holds it besides, so it is not removed.
      have many := anchored.count_pos balanced member
      rw [List.count_cons_self] at many
      rcases either with ⟨single, _⟩ | ⟨_, rfl⟩
      · omega
      · rw [object_update_self (lt_of_not_released present)]
        exact ⟨rfl, rfl⟩
    · have unchanged : (ending (release ref heap)).object other = heap.object other :=
        object_release_of_ne same
      rw [released, ending_ok] at unchanged
      rw [unchanged]
      exact ⟨rfl, rfl⟩
  discard ref balanced anchored := anchored.discard balanced ref
  pending _ anchored := anchored

end Anchored

/-- Some cycle of fields leads to the object. -/
def HeldByCycle (heap : Heap) (ref : Ref) : Prop :=
  ∃ point, TransGen heap.Owns point point ∧ heap.Leads point ref

/-- What cycles lead to is anchored. -/
theorem anchored_heldByCycle (balanced : heap.Balanced held) :
    heap.Anchored heap.HeldByCycle := by
  have owned : ∀ {point ref}, TransGen heap.Owns point point → heap.Leads point ref →
      ∃ owner, heap.HeldByCycle owner ∧ heap.Owns owner ref := by
    intro point ref cycle leads
    rcases leads.cases_tail with rfl | ⟨owner, before, owns⟩
    · obtain ⟨owner, before, owns⟩ := TransGen.tail'_iff.1 cycle
      exact ⟨owner, ⟨ref, cycle, before⟩, owns⟩
    · exact ⟨owner, ⟨point, cycle, before⟩, owns⟩
  rintro ref ⟨point, cycle, leads⟩
  obtain ⟨owner, member, name, found⟩ := owned cycle leads
  exact ⟨balanced.not_released_of_field found, owner, member, name, found⟩

/-! ## Objects without holders -/

/-- Every object that is there is held. -/
def Thrifty (heap : Heap) : Prop :=
  ∀ ref, (heap.object ref).released = false → (heap.object ref).count ≠ 0

namespace Thrifty

theorem lasting : Lasting Thrifty where
  release := by
    intro heap next held ref _ thrifty released other present
    obtain ⟨there, positive, either⟩ := release_eq_ok released
    have inside := lt_of_not_released there
    by_cases same : other = ref
    · subst same
      rcases either with ⟨_, rfl⟩ | ⟨many, rfl⟩
      · have buried : (((heap.update other .lower).remove other).object other).released = true := by
          change (((heap.update other .lower).update other .bury).object other).released = true
          rw [object_update_self (by simpa using inside)]
          rfl
        rw [buried] at present
        cases present
      · rw [object_update_self inside]
        change (heap.object other).count - 1 ≠ 0
        omega
    · have unchanged : (ending (release ref heap)).object other = heap.object other :=
        object_release_of_ne same
      rw [released, ending_ok] at unchanged
      rw [unchanged] at present ⊢
      exact thrifty other present
  discard := by
    intro heap held ref _ thrifty
    unfold Heap.discard
    split
    · exact thrifty
    next garbage =>
      simp only [Bool.or_eq_true, bne_iff_ne, ne_eq, not_or, Bool.not_eq_true,
        Decidable.not_not] at garbage
      exact absurd garbage.2 (thrifty ref garbage.1)
  pending _ thrifty := thrifty

/-- An object without holders is gone once it has been discarded. -/
theorem unheld_of_discard {other : Ref}
    (present : ((heap.discard ref).object other).released = false)
    (none : ((heap.discard ref).object other).count = 0) :
    other ≠ ref ∧ (heap.object other).released = false ∧ (heap.object other).count = 0 := by
  unfold Heap.discard at present none
  split at present
  next idle =>
    rw [if_pos idle] at none
    refine ⟨?_, present, none⟩
    rintro rfl
    simp [present, none] at idle
  next garbage =>
    rw [if_neg garbage] at none
    simp only [Bool.or_eq_true, bne_iff_ne, ne_eq, not_or, Bool.not_eq_true] at garbage
    have apart : other ≠ ref := by
      rintro rfl
      have buried : ((heap.remove other).object other).released = true := by
        change ((heap.update other .bury).object other).released = true
        rw [object_update_self (lt_of_not_released garbage.1)]
        rfl
      rw [buried] at present
      cases present
    have unchanged : (heap.remove ref).object other = heap.object other :=
      object_update_of_ne apart
    rw [unchanged] at present none
    exact ⟨apart, present, none⟩

/-- Sweeping leaves no object without holders. -/
theorem of_sweep (indexed : heap.Indexed) (balanced : heap.Balanced held)
    (swept : Heap.sweep heap = .ok () next) : next.Thrifty := by
  -- What is not held is among the garbage that has not been discarded yet.
  have cleared : ∀ (garbage : List Ref) {heap : Heap}, heap.Balanced held →
      (∀ ref, (heap.object ref).released = false → (heap.object ref).count = 0 → ref ∈ garbage) →
      (garbage.foldl Heap.discard heap).Balanced held ∧
        (garbage.foldl Heap.discard heap).Thrifty := by
    intro garbage
    induction garbage with
    | nil =>
        exact fun balanced listed => ⟨balanced, fun ref present none =>
          List.not_mem_nil (listed ref present none)⟩
    | cons first rest ih =>
        intro heap balanced listed
        refine ih (balanced.discard first) fun ref present none => ?_
        obtain ⟨apart, present, none⟩ := unheld_of_discard present none
        exact (List.mem_cons.1 (listed ref present none)).resolve_left apart
  rw [sweep_eq] at swept
  have listed : ∀ ref, (heap.object ref).released = false → (heap.object ref).count = 0 →
      ref ∈ heap.live.values.filter fun ref => (heap.object ref).count == 0 := by
    intro ref present none
    have found := Table.find?_eq_some_iff.1 (indexed.live.2 ⟨present, rfl⟩)
    exact List.mem_filter.2 ⟨List.mem_map.2 ⟨_, found, rfl⟩, by simpa using none⟩
  obtain ⟨balanced, thrifty⟩ := cleared _ balanced listed
  exact lasting.drain balanced thrifty swept

/-- Every object can be traced back to one that is held directly, to a cycle, or to one that is
gone. -/
theorem traced (thrifty : heap.Thrifty) (balanced : heap.Balanced held)
    (settled : heap.pending = []) (ref : Ref) :
    (∃ root ∈ held, heap.Leads root ref) ∨ heap.HeldByCycle ref ∨
      ∃ owner, (heap.object owner).released = true ∧ heap.Leads owner ref := by
  by_cases rooted : ∃ root ∈ held, heap.Leads root ref
  · exact .inl rooted
  by_cases strayed : ∃ owner, (heap.object owner).released = true ∧ heap.Leads owner ref
  · exact .inr (.inr strayed)
  refine .inr (.inl ?_)
  -- Nothing but an object that is there owns what leads here.
  have owned : ∀ point, heap.Leads point ref → ∃ owner, heap.Owns owner point := by
    intro point leads
    have there : (heap.object point).released = false := by
      rw [← Bool.not_eq_true]
      exact fun gone => strayed ⟨point, gone, leads⟩
    have positive := thrifty point there
    have counted := balanced.count point
    have unheld : held.count point = 0 :=
      List.count_eq_zero.2 fun member => rooted ⟨point, member, leads⟩
    rw [references, settled, List.count_nil] at counted
    exact exists_owner_of_mem_fieldValues (List.count_pos_iff.1 (by omega))
  have endless : ∀ point, heap.Leads point ref →
      ¬Acc (Function.swap (Function.swap heap.Owns)) point := by
    intro point leads ends
    induction ends with
    | intro point _ ih =>
        obtain ⟨owner, owns⟩ := owned point leads
        exact ih owner owns (leads.head owns)
  have finite : {point | ReflTransGen (Function.swap heap.Owns) ref point}.Finite := by
    refine (List.finite_toSet (ref :: List.range heap.objects.length)).subset fun point path => ?_
    cases path with
    | refl => exact List.mem_cons_self
    | tail _ owns =>
        obtain ⟨name, found⟩ := owns
        exact List.mem_cons_of_mem _ (List.mem_range.2 (lt_of_field? found))
  obtain ⟨point, path, cycle⟩ := (leadsToCycle_iff_not_acc finite).2 (endless ref .refl)
  exact ⟨point, transGen_swap.1 cycle, reflTransGen_swap.1 path⟩

/-- Where nobody holds anything but the fields of objects that are there, cycles hold
everything. -/
theorem heldByCycle (thrifty : heap.Thrifty) (balanced : heap.Balanced [])
    (settled : heap.pending = []) (tidy : heap.Tidy)
    (present : (heap.object ref).released = false) : heap.HeldByCycle ref := by
  rcases thrifty.traced balanced settled ref with
    ⟨_, none, _⟩ | cycle | ⟨owner, gone, leads⟩
  · cases none
  · exact cycle
  · rcases leads.cases_head with same | ⟨_, ⟨name, found⟩, _⟩
    · rw [same, present] at gone
      cases gone
    · rw [field?, tidy owner gone] at found
      cases found

end Thrifty

/-! ## Letting go -/

/-- What a heap has become once only some objects are held. -/
structure Unwinds (before heap : Heap) (held : List Ref) : Prop where
  balanced : heap.Balanced held
  settled : heap.pending = []
  lasts : ∀ {property}, Lasting property → property before → property heap

namespace Unwinds

variable {before : Heap}

theorem unref (unwinds : before.Unwinds heap (ref :: held)) :
    ∃ next, Heap.unref (some ref) heap = .ok () next ∧ before.Unwinds next held := by
  obtain ⟨next, dropped, balanced, settled⟩ := unwinds.balanced.unref
  exact ⟨next, dropped, balanced, settled, fun lasting holds =>
    lasting.unref unwinds.balanced (unwinds.lasts lasting holds) dropped⟩

theorem sweep (unwinds : before.Unwinds heap held) (indexed : before.Indexed) :
    ∃ next, Heap.sweep heap = .ok () next ∧ before.Unwinds next held ∧ next.Thrifty := by
  obtain ⟨next, swept, balanced, settled⟩ := unwinds.balanced.sweep
  refine ⟨next, swept, ⟨balanced, settled, fun lasting holds => ?_⟩, ?_⟩
  · exact lasting.sweep unwinds.balanced (unwinds.lasts lasting holds) swept
  · exact Thrifty.of_sweep (unwinds.lasts Indexed.stable.lasting indexed) unwinds.balanced swept

/-- Once everything has been let go, what is left are the cycles and what they lead to. -/
theorem present_iff (unwinds : before.Unwinds heap []) (thrifty : heap.Thrifty)
    (held_before : before.Balanced held) (tidy : before.Tidy) :
    (heap.object ref).released = false ↔ before.HeldByCycle ref := by
  have decays := unwinds.lasts (Decays.stable before).lasting (.refl before)
  constructor
  · intro present
    have smaller : ∀ owner value, heap.Owns owner value → before.Owns owner value :=
      fun _ _ ⟨name, found⟩ => ⟨name, decays.thins.field? found⟩
    obtain ⟨point, cycle, leads⟩ := thrifty.heldByCycle unwinds.balanced unwinds.settled
      (unwinds.lasts Tidy.stable.lasting tidy) present
    exact ⟨point, TransGen.mono smaller _ _ cycle, ReflTransGen.mono smaller _ _ leads⟩
  · intro cycle
    exact (unwinds.lasts (Anchored.lasting _) (anchored_heldByCycle held_before) ref cycle).1

end Unwinds

end Custody.Heap
