import Custody.Proofs.Heap.Seclusion
import Custody.Proofs.Heap.Survival
import Mathlib.Data.List.Perm.Subperm

/-!
# Objects in hand

Whoever works with a heap has objects in hand that nothing has been done to yet.  An
object in hand is firm if a chain of fields leads to it from one that is held outside,
and loose if nobody holds it.  Neither is released while fields of other objects are set,
as long as no chain of fields is cut.
-/

namespace Custody.Heap

open Relation

variable {heap next : Heap} {held hand : List Ref} {ref other owner : Ref} {name : String}

/-- A chain of fields leads to the object from one that is held. -/
def Firm (heap : Heap) (held : List Ref) (ref : Ref) : Prop := ∃ root ∈ held, heap.Leads root ref

/-- The object is there, and nobody holds it. -/
structure Loose (heap : Heap) (ref : Ref) : Prop where
  present : (heap.object ref).released = false
  unheld : (heap.object ref).count = 0

/-! ## Firm objects -/

namespace Firm

theorem of_mem (member : ref ∈ held) : heap.Firm held ref := ⟨ref, member, .refl⟩

theorem owns (firm : heap.Firm held owner) (owns : heap.Owns owner ref) : heap.Firm held ref := by
  obtain ⟨root, member, leads⟩ := firm
  exact ⟨root, member, leads.tail owns⟩

theorem count_pos (balanced : heap.Balanced held) (firm : heap.Firm held ref) :
    0 < (heap.object ref).count := by
  obtain ⟨root, member, leads⟩ := firm
  have counted := balanced.count ref
  unfold references at counted
  rcases leads.cases_tail with rfl | ⟨owner, _, owns⟩
  · have positive := List.count_pos_iff.2 member
    omega
  · have positive := List.count_pos_iff.2 (mem_fieldValues_of_owns owns)
    omega

theorem not_loose (balanced : heap.Balanced held) (firm : heap.Firm held ref) :
    ¬heap.Loose ref := by
  intro loose
  have positive := firm.count_pos balanced
  rw [loose.unheld] at positive
  exact Nat.lt_irrefl _ positive

theorem present (balanced : heap.Balanced held) (firm : heap.Firm held ref) :
    (heap.object ref).released = false := by
  have positive := firm.count_pos balanced
  cases flag : (heap.object ref).released with
  | false => rfl
  | true =>
      rw [balanced.retired ref flag] at positive
      exact absurd positive (Nat.lt_irrefl _)

/-- What is firm stays so if no firm object loses a field while it is there. -/
theorem lasts (firm : heap.Firm held ref) (balanced : next.Balanced held)
    (kept : ∀ {owner name value}, heap.Firm held owner → (next.object owner).released = false →
      heap.field? owner name = some value → next.field? owner name = some value) :
    next.Firm held ref := by
  obtain ⟨root, member, leads⟩ := firm
  induction leads with
  | refl => exact .of_mem member
  | tail before owns ih =>
      obtain ⟨name, found⟩ := owns
      exact ih.owns ⟨name, kept ⟨root, member, before⟩ (ih.present balanced) found⟩

theorem extended (firm : heap.Firm held ref) (balanced : heap.Balanced held) (type : String)
    (isExternal : Bool) : (heap.extended type isExternal).Firm held ref := by
  refine firm.lasts (balanced.extended type isExternal) ?_
  intro owner name value _ _ found
  rw [field?_extended]
  exact found

/-- Setting a field cuts no chain if the field was free or its owner is not firm. -/
theorem setField {value : Option Ref} (firm : heap.Firm held ref) (balanced : next.Balanced held)
    (set : Heap.setField (some owner) name value heap = .ok () next)
    (apart : heap.field? owner name = none ∨ ¬heap.Firm held owner) : next.Firm held ref := by
  have inside := lt_of_not_released (not_released_of_setField set)
  refine firm.lasts balanced ?_
  intro other label occupant known present found
  have same := ((setField_decays set).object other).fields present
  rw [field?, same]
  by_cases here : other = owner
  · subst here
    rw [object_update_self inside, Object.find?_fields_assign]
    split
    next label =>
      rcases apart with free | unsure
      · rw [label, free] at found
        cases found
      · exact absurd known unsure
    next => exact found
  · rw [object_update_of_ne here]
    exact found

/-- An object that is firm is not released when one of its own fields is set. -/
theorem setField_self {value : Option Ref} (firm : heap.Firm held owner)
    (balanced : next.Balanced held)
    (set : Heap.setField (some owner) name value heap = .ok () next) : next.Firm held owner := by
  obtain ⟨root, member, leads⟩ := firm
  -- Only a chain that has come to the owner already can be cut.
  have along : ∀ {ref}, heap.Leads root ref → next.Firm held owner ∨ next.Firm held ref := by
    intro ref leads
    induction leads with
    | refl => exact .inr (.of_mem member)
    | @tail before after _ owns ih =>
        rcases ih with done | firm
        · exact .inl done
        by_cases here : before = owner
        · exact .inl (here ▸ firm)
        · obtain ⟨label, found⟩ := owns
          refine .inr (firm.owns ⟨label, ?_⟩)
          rw [field?, ((setField_decays set).object before).fields (firm.present balanced),
            object_update_of_ne here]
          exact found
  exact (along leads).elim id id

end Firm

/-- A field holds what is put into it, as long as the owner is there. -/
theorem field?_setField_self {value : Option Ref}
    (set : Heap.setField (some owner) name value heap = .ok () next)
    (present : (next.object owner).released = false) : next.field? owner name = value := by
  have inside := lt_of_not_released (not_released_of_setField set)
  rw [field?, ((setField_decays set).object owner).fields present, object_update_self inside,
    Object.find?_fields_assign, if_pos rfl]

/-- Where a field was free, setting it releases nothing. -/
theorem present_of_setField {value : Ref}
    (set : Heap.setField (some owner) name (some value) heap = .ok () next)
    (free : heap.field? owner name = none) (available : (heap.object value).released = false)
    (settled : heap.pending = []) (present : (heap.object ref).released = false) :
    (next.object ref).released = false := by
  rw [setField_of_free (not_released_of_setField set) free available settled] at set
  cases set
  have stored : ((heap.update owner (.withField name value)).object ref).released = false := by
    rcases object_update_cases heap owner (.withField name value) ref with same | changed
    · rw [same]
      exact present
    · rw [changed]
      exact present
  rcases object_update_cases (heap.update owner (.withField name value)) value .raise ref with
    same | changed
  · rw [same]
    exact stored
  · rw [changed]
    exact stored

theorem owns_of_setField {value : Ref}
    (set : Heap.setField (some owner) name (some value) heap = .ok () next)
    (present : (next.object owner).released = false) : next.Owns owner value :=
  ⟨name, field?_setField_self set present⟩

/-! ## Loose objects -/

namespace Loose

theorem congr (loose : heap.Loose ref) (released : (next.object ref).released =
      (heap.object ref).released) (count : (next.object ref).count = (heap.object ref).count) :
    next.Loose ref :=
  ⟨released.trans loose.present, count.trans loose.unheld⟩

theorem extended (loose : heap.Loose ref) (type : String) (isExternal : Bool) :
    (heap.extended type isExternal).Loose ref := by
  have inside := lt_of_not_released loose.present
  have same : (heap.extended type isExternal).object ref = heap.object ref := by
    rw [object_extended, if_neg (Nat.ne_of_lt inside)]
  exact loose.congr (by rw [same]) (by rw [same])

theorem new (heap : Heap) (type : String) (isExternal : Bool) :
    (heap.extended type isExternal).Loose heap.objects.length := by
  constructor <;> rw [object_extended, if_pos rfl] <;> rfl

/-- Only what is held can be released. -/
theorem release (loose : heap.Loose ref) (released : Heap.release other heap = .ok () next) :
    next.Loose ref := by
  have apart : ref ≠ other := by
    rintro rfl
    exact (release_eq_ok released).2.1 loose.unheld
  have same : (ending (Heap.release other heap)).object ref = heap.object ref :=
    object_release_of_ne apart
  rw [released, ending_ok] at same
  exact loose.congr (by rw [same]) (by rw [same])

theorem drain (loose : heap.Loose ref) (drained : Heap.drain heap = .ok () next) :
    next.Loose ref := by
  induction heap using Heap.drain.induct with
  | case1 heap settled =>
      rw [drain_of_settled settled] at drained
      cases drained
      exact loose
  | case2 heap other rest due middle released lighter ih =>
      rw [drain_of_released due released] at drained
      have popped : ({ heap with pending := rest } : Heap).Loose ref :=
        ⟨loose.present, loose.unheld⟩
      exact ih (popped.release released) drained
  | case3 heap other rest due error middle refused =>
      rw [drain_of_refused due refused] at drained
      cases drained

theorem update (loose : heap.Loose ref) (other : Ref) (change : Object → Object)
    (same : ∀ object : Object, (change object).released = object.released ∧
      (change object).count = object.count) : (heap.update other change).Loose ref := by
  rcases object_update_cases heap other change ref with unchanged | changed
  · exact loose.congr (by rw [unchanged]) (by rw [unchanged])
  · refine loose.congr ?_ ?_
    · rw [changed, (same _).1]
    · rw [changed, (same _).2]

/-- Only what is put into a field is held by it. -/
theorem setField {value : Option Ref} (loose : heap.Loose ref) (apart : ref ∉ value)
    (set : Heap.setField (some owner) name value heap = .ok () next) : next.Loose ref := by
  rcases setField_cases heap (some owner) name value with
    ⟨error, refused, _⟩ | ⟨_, ⟨⟩, present, ⟨_, idle⟩ | ⟨_, _, moved⟩⟩
  · rw [set] at refused
    cases refused
  · rw [set] at idle
    cases idle
    exact loose
  · rw [set] at moved
    obtain ⟨_, middle, vacated, moved⟩ := bind_eq_ok moved.symm
    obtain ⟨_, full, occupied, drained⟩ := bind_eq_ok moved
    have first : middle.Loose ref := by
      cases found : heap.field? owner name with
      | none =>
          rw [found] at vacated
          cases vacated
          exact loose
      | some occupant =>
          rw [found] at vacated
          have taken : (heap.update owner (.withoutField name)).Loose ref :=
            loose.update owner _ fun _ => ⟨rfl, rfl⟩
          exact taken.release vacated
    have second : full.Loose ref := by
      cases value with
      | none =>
          cases occupied
          exact first
      | some value =>
          cases occupied
          have stored : (middle.update owner (.withField name value)).Loose ref :=
            first.update owner _ fun _ => ⟨rfl, rfl⟩
          have same : ((middle.update owner (.withField name value)).update value .raise).object
              ref = (middle.update owner (.withField name value)).object ref :=
            object_update_of_ne fun here => apart (by rw [here]; rfl)
          exact stored.congr (by rw [same]) (by rw [same])
    exact second.drain drained

end Loose

/-! ## Hands -/

/-- Some objects are loose, every other object in hand is firm or loose, and loose ones
are in hand once. -/
structure InHand (heap : Heap) (held loose hand : List Ref) : Prop where
  unheld : ∀ ref ∈ loose, heap.Loose ref
  each : ∀ ref ∈ hand, heap.Firm held ref ∨ heap.Loose ref
  apart : (loose ++ hand).Pairwise fun ref other => ref = other → heap.Firm held ref

namespace InHand

variable {loose others : List Ref}

theorem nil (heap : Heap) (held : List Ref) : heap.InHand held [] [] := ⟨nofun, nofun, .nil⟩

theorem pairwise_perm (perm : hand.Perm others)
    (apart : hand.Pairwise fun ref other => ref = other → heap.Firm held ref) :
    others.Pairwise fun ref other => ref = other → heap.Firm held ref := by
  refine (perm.pairwise_iff ?_).1 apart
  intro ref other firm same
  rw [same]
  exact firm same.symm

/-- Objects may be let out of sight. -/
theorem fewer (inHand : heap.InHand held loose hand) (fewer : others.Subperm hand) :
    heap.InHand held loose others := by
  refine ⟨inHand.unheld, fun ref member => inHand.each ref (fewer.subset member), ?_⟩
  obtain ⟨listed, perm, sublist⟩ := fewer
  exact pairwise_perm (perm.append_left loose) (inHand.apart.sublist (sublist.append_left loose))

theorem right (inHand : heap.InHand held loose (others ++ hand)) : heap.InHand held loose hand :=
  inHand.fewer (List.sublist_append_right others hand).subperm

/-- A loose object may be treated like any other. -/
theorem forget (inHand : heap.InHand held (ref :: loose) hand) :
    heap.InHand held loose (ref :: hand) := by
  refine ⟨fun other member => inHand.unheld other (.tail _ member), ?_, ?_⟩
  · intro other member
    rcases List.mem_cons.1 member with rfl | member
    · exact .inr (inHand.unheld other (.head _))
    · exact inHand.each other member
  · exact pairwise_perm List.perm_middle.symm inHand.apart

/-- A loose object may be kept so. -/
theorem remember (inHand : heap.InHand held loose (ref :: hand)) (idle : heap.Loose ref) :
    heap.InHand held (ref :: loose) hand := by
  refine ⟨?_, fun other member => inHand.each other (.tail _ member), ?_⟩
  · intro other member
    rcases List.mem_cons.1 member with rfl | member
    · exact idle
    · exact inHand.unheld other member
  · exact pairwise_perm List.perm_middle inHand.apart

theorem present (inHand : heap.InHand held loose hand) (balanced : heap.Balanced held)
    (member : ref ∈ loose ++ hand) : (heap.object ref).released = false := by
  rcases List.mem_append.1 member with inside | inside
  · exact (inHand.unheld ref inside).present
  · exact (inHand.each ref inside).elim (fun firm => firm.present balanced)
      fun loose => loose.present

theorem firm (inHand : heap.InHand held loose hand) (firm : heap.Firm held ref) :
    heap.InHand held loose (ref :: hand) := by
  refine ⟨inHand.unheld, ?_, ?_⟩
  · intro other member
    rcases List.mem_cons.1 member with rfl | member
    · exact .inl firm
    · exact inHand.each other member
  · exact pairwise_perm List.perm_middle.symm (.cons (fun _ _ _ => firm) inHand.apart)

/-- What is in hand stays there while what is firm and what is loose do. -/
theorem lasts (inHand : heap.InHand held loose hand)
    (firm : ∀ ref, heap.Firm held ref → next.Firm held ref)
    (idle : ∀ ref ∈ loose ++ hand, heap.Loose ref → next.Loose ref) :
    next.InHand held loose hand := by
  refine ⟨?_, ?_, inHand.apart.imp fun apart same => firm _ (apart same)⟩
  · intro ref member
    exact idle ref (List.mem_append_left _ member) (inHand.unheld ref member)
  · intro ref member
    exact (inHand.each ref member).imp (firm ref) (idle ref (List.mem_append_right _ member))

theorem extended (inHand : heap.InHand held loose hand) (balanced : heap.Balanced held)
    (type : String) (isExternal : Bool) :
    (heap.extended type isExternal).InHand held loose (heap.objects.length :: hand) := by
  have kept : (heap.extended type isExternal).InHand held loose hand :=
    inHand.lasts (fun _ firm => firm.extended balanced type isExternal)
      fun _ _ loose => loose.extended type isExternal
  refine ⟨kept.unheld, ?_, ?_⟩
  · intro ref member
    rcases List.mem_cons.1 member with rfl | member
    · exact .inr (.new heap type isExternal)
    · exact kept.each ref member
  · refine pairwise_perm List.perm_middle.symm (.cons ?_ kept.apart)
    rintro ref member rfl
    exact absurd (lt_of_not_released (inHand.present balanced member)) (Nat.lt_irrefl _)

/-- What is put into a field is not in hand any more; the rest is. -/
theorem setField {value : Option Ref} (inHand : heap.InHand held loose (value.toList ++ hand))
    (balanced : heap.Balanced held) (after : next.Balanced held)
    (set : Heap.setField (some owner) name value heap = .ok () next)
    (apart : heap.field? owner name = none ∨ ¬heap.Firm held owner) :
    next.InHand held loose hand := by
  refine inHand.right.lasts (fun ref firm => firm.setField after set apart) ?_
  intro ref member idle
  refine idle.setField ?_ set
  rintro rfl
  have listed : (loose ++ (ref :: hand)).Pairwise fun ref other =>
      ref = other → heap.Firm held ref := inHand.apart
  have different := (List.pairwise_cons.1 (pairwise_perm List.perm_middle listed)).1 ref member rfl
  exact different.not_loose balanced idle

end InHand

end Custody.Heap
