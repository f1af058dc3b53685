import Custody.Proofs.Heap.Balance
import Mathlib.Logic.Relation

/-!
# Elementary changes

Whatever is asked of a heap comes down to a few elementary changes, each of them to one object:
it is allocated, its count is raised or lowered, it is removed, one of its fields is emptied or
filled.  `Changes` lists them with the conditions under which they are made.  Only objects that are
there are counted up, a count is lowered only where there is something to take away, and an object
is removed only once and only at count zero.

Every operation is a sequence of elementary changes in every heap, whether it succeeds or not, and
whatever its operands are.
-/

namespace Custody.Heap

open Relation

/-- An elementary change of a heap. -/
inductive Changes : Heap → Heap → Prop
  | allocate {heap : Heap} (type : String) (isExternal : Bool) :
      Changes heap (heap.extended type isExternal)
  | raise {heap : Heap} {ref : Ref} (present : (heap.object ref).released = false) :
      Changes heap (heap.update ref .raise)
  | lower {heap : Heap} {ref : Ref} (present : (heap.object ref).released = false)
      (held : 0 < (heap.object ref).count) : Changes heap (heap.update ref .lower)
  | remove {heap : Heap} {ref : Ref} (present : (heap.object ref).released = false)
      (unheld : (heap.object ref).count = 0) : Changes heap (heap.remove ref)
  | withoutField {heap : Heap} (owner : Ref) (name : String) :
      Changes heap (heap.update owner (.withoutField name))
  | withField {heap : Heap} (owner : Ref) (name : String) (value : Ref) :
      Changes heap (heap.update owner (.withField name value))
  | pending {heap : Heap} (pending : List Ref) : Changes heap { heap with pending }

/-- Any number of elementary changes. -/
def Evolves (before after : Heap) : Prop := ReflTransGen Changes before after

variable {before after heap : Heap} {object value : Option Ref} {ref : Ref}

/-! ## Operations as changes -/

namespace Evolves

theorem refl (heap : Heap) : heap.Evolves heap := ReflTransGen.refl

theorem trans (one : before.Evolves heap) (two : heap.Evolves after) : before.Evolves after :=
  ReflTransGen.trans one two

theorem change (evolves : before.Evolves heap) (changes : heap.Changes after) :
    before.Evolves after :=
  ReflTransGen.tail evolves changes

/-- What every elementary change keeps, the heap keeps. -/
theorem keeps {property : Heap → Prop} (evolves : before.Evolves after) (holds : property before)
    (step : ∀ {heap next}, Changes heap next → property heap → property next) : property after := by
  induction evolves with
  | refl => exact holds
  | tail _ changes ih => exact step changes ih

theorem release (evolves : before.Evolves heap) (ref : Ref) :
    before.Evolves (ending (Heap.release ref heap)) := by
  unfold Heap.release
  dsimp only
  split
  · exact evolves
  next allowed =>
    simp only [Bool.or_eq_true, beq_iff_eq, not_or, Bool.not_eq_true] at allowed
    obtain ⟨present, positive⟩ := allowed
    have lowered := evolves.change (.lower present (Nat.pos_of_ne_zero positive))
    split
    next single =>
      have object : (heap.update ref .lower).object ref = (heap.object ref).lower :=
        object_update_self (lt_of_not_released present)
      refine lowered.change (.remove ?_ ?_)
      · rw [object]
        exact present
      · rw [object]
        simp only [beq_iff_eq] at single
        simp [Object.lower, single]
    next => exact lowered

theorem drain (evolves : before.Evolves heap) : before.Evolves (ending (Heap.drain heap)) := by
  induction heap using Heap.drain.induct with
  | case1 heap settled =>
      rw [drain_of_settled settled]
      exact evolves
  | case2 heap ref rest due next released _ ih =>
      have first := (evolves.change (.pending rest)).release ref
      rw [released] at first
      rw [drain_of_released due released]
      exact ih first
  | case3 heap ref rest due error next refused =>
      have first := (evolves.change (.pending rest)).release ref
      rw [refused] at first
      rw [drain_of_refused due refused]
      exact first.change (.pending [])

theorem refer (evolves : before.Evolves heap) (object : Option Ref) :
    before.Evolves (ending (Heap.ref object heap)) := by
  cases object with
  | none => exact evolves
  | some ref =>
      unfold Heap.ref
      dsimp only
      split
      next => exact evolves
      next present => exact evolves.change (.raise (by simpa using present))

theorem letGo (evolves : before.Evolves heap) (object : Option Ref) :
    before.Evolves (ending (Heap.letGo object heap)) := by
  cases object with
  | none => exact evolves
  | some ref => exact evolves.release ref

/-- Only what is there is acquired. -/
theorem acquire (evolves : before.Evolves heap) (available : heap.isReleased object = false) :
    before.Evolves (ending (Heap.acquire object heap)) := by
  cases object with
  | none => exact evolves
  | some ref => exact evolves.change (.raise available)

theorem unref (evolves : before.Evolves heap) (object : Option Ref) :
    before.Evolves (ending (Heap.unref object heap)) := by
  cases object with
  | none => exact evolves
  | some ref => exact ending_bind before.Evolves (evolves.release ref) fun _ _ _ => drain

theorem transfer (evolves : before.Evolves heap) (old value : Option Ref) :
    before.Evolves (ending (Heap.transfer old value heap)) := by
  rcases transfer_cases heap old value with
    ⟨error, refused, _⟩ | ⟨_, idle⟩ | ⟨different, available, moved⟩
  · rw [refused]
    exact evolves
  · rw [idle]
    exact evolves
  · rw [moved]
    refine ending_bind before.Evolves (evolves.letGo old) fun _ middle gone kept => ?_
    have still := isReleased_letGo different available
    rw [gone] at still
    exact ending_bind before.Evolves (kept.acquire still) fun _ _ _ => drain

theorem vacate (evolves : before.Evolves heap) (owner : Ref) (name : String)
    (occupant : Option Ref) :
    before.Evolves (ending (Heap.vacate owner name occupant heap)) := by
  cases occupant with
  | none => exact evolves
  | some occupant => exact (evolves.change (.withoutField owner name)).release occupant

theorem occupy (evolves : before.Evolves heap) (owner : Ref) (name : String)
    (available : heap.isReleased value = false) :
    before.Evolves (ending (Heap.occupy owner name value heap)) := by
  cases value with
  | none => exact evolves
  | some value =>
      have stored := evolves.change (.withField owner name value)
      refine stored.change (.raise ?_)
      rcases object_update_cases heap owner (.withField name value) value with same | changed
      · rw [same]
        exact available
      · rw [changed]
        exact available

theorem setField (evolves : before.Evolves heap) (owner : Option Ref) (name : String)
    (value : Option Ref) : before.Evolves (ending (Heap.setField owner name value heap)) := by
  rcases setField_cases heap owner name value with
    ⟨error, refused, _⟩ | ⟨object, rfl, present, ⟨_, idle⟩ | ⟨different, available, moved⟩⟩
  · rw [refused]
    exact evolves
  · rw [idle]
    exact evolves
  · rw [moved]
    refine ending_bind before.Evolves (evolves.vacate object name _) fun _ middle gone kept => ?_
    have still := isReleased_vacate (lt_of_not_released present) different available
    rw [gone] at still
    exact ending_bind before.Evolves (kept.occupy object name still) fun _ _ _ => drain

theorem discard (evolves : before.Evolves heap) (ref : Ref) :
    before.Evolves (heap.discard ref) := by
  unfold Heap.discard
  split
  next => exact evolves
  next garbage =>
    simp only [Bool.or_eq_true, bne_iff_ne, ne_eq, not_or, Bool.not_eq_true, Decidable.not_not]
      at garbage
    exact evolves.change (.remove garbage.1 garbage.2)

theorem sweep (evolves : before.Evolves heap) : before.Evolves (ending (Heap.sweep heap)) := by
  have cleared : ∀ (garbage : List Ref) {heap : Heap}, before.Evolves heap →
      before.Evolves (garbage.foldl Heap.discard heap) := by
    intro garbage
    induction garbage with
    | nil => exact fun evolves => evolves
    | cons first rest ih => exact fun evolves => ih (evolves.discard first)
  rw [sweep_eq]
  exact (cleared _ evolves).drain

end Evolves

/-! ## What an elementary change keeps -/

/-- Released objects are not counted any more. -/
def Retired (heap : Heap) : Prop :=
  ∀ ref, (heap.object ref).released = true → (heap.object ref).count = 0

namespace Retired

theorem startingAfter (lastId : Nat) : (startingAfter lastId).Retired := by
  intro ref _
  rw [object_of_le (Nat.zero_le _)]
  rfl

/-- A change of one object has to leave that one in order. -/
theorem update {change : Object → Object} (retired : heap.Retired)
    (kept : (change (heap.object ref)).released = true → (change (heap.object ref)).count = 0) :
    (heap.update ref change).Retired := by
  intro other gone
  by_cases here : other = ref
  · subst here
    rcases object_update_cases heap other change other with same | changed
    · rw [same] at gone ⊢
      exact retired other gone
    · rw [changed] at gone ⊢
      exact kept gone
  · rw [object_update_of_ne here] at gone ⊢
    exact retired other gone

theorem changes (changes : heap.Changes after) (retired : heap.Retired) : after.Retired := by
  cases changes with
  | allocate type isExternal =>
      intro other
      rw [object_extended]
      split
      next => exact fun _ => rfl
      next => exact retired other
  | raise present =>
      refine retired.update fun gone => ?_
      change (heap.object _).released = true at gone
      rw [present] at gone
      cases gone
  | lower _ _ =>
      refine retired.update fun gone => ?_
      have unheld := retired _ gone
      simp only [Object.lower, unheld]
  | remove _ unheld =>
      have buried : (heap.update _ .bury).Retired := retired.update fun _ => unheld
      exact buried
  | withoutField owner name => exact retired.update (retired owner)
  | withField owner name value => exact retired.update (retired owner)
  | pending => exact retired

end Retired

/-- Identifiers have been handed out one after the other in the order of allocation, the first
one after a given number. -/
structure Numbered (start : Nat) (heap : Heap) : Prop where
  ids : heap.objects.map (·.id) = List.range' (start + 1) heap.objects.length
  lastId : heap.lastId = start + heap.objects.length

namespace Numbered

variable {start : Nat}

theorem startingAfter (lastId : Nat) : Numbered lastId (startingAfter lastId) := ⟨rfl, rfl⟩

theorem extended (numbered : heap.Numbered start) (type : String) (isExternal : Bool) :
    (heap.extended type isExternal).Numbered start where
  ids := by
    have newest : start + 1 + heap.objects.length = heap.lastId + 1 := by
      rw [numbered.lastId]
      omega
    rw [length_objects_extended, List.range'_1_concat, ← numbered.ids, newest]
    simp [Heap.extended, Object.fresh]
  lastId := by
    rw [length_objects_extended, ← Nat.add_assoc, ← numbered.lastId]
    rfl

theorem update {change : Object → Object} (numbered : heap.Numbered start)
    (same : ∀ object, (change object).id = object.id) :
    (heap.update ref change).Numbered start where
  ids := by
    have kept : (heap.objects.modify ref change).map (·.id) = heap.objects.map (·.id) := by
      refine List.ext_getElem (by simp) fun place _ inside => ?_
      rw [List.getElem_map, List.getElem_map, List.getElem_modify]
      split
      next => exact same _
      next => rfl
    rw [length_objects_update, ← numbered.ids]
    exact kept
  lastId := by
    rw [length_objects_update]
    exact numbered.lastId

theorem changes (changes : heap.Changes after) (numbered : heap.Numbered start) :
    after.Numbered start := by
  cases changes with
  | allocate type isExternal => exact numbered.extended type isExternal
  | raise _ | lower _ _ | withoutField _ _ | withField _ _ _ => exact numbered.update fun _ => rfl
  | @remove ref _ _ =>
      have buried : (heap.update ref .bury).Numbered start := numbered.update fun _ => rfl
      exact ⟨buried.ids, buried.lastId⟩
  | pending => exact ⟨numbered.ids, numbered.lastId⟩

end Numbered

end Custody.Heap
