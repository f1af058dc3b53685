import Custody.Proofs.Heap.Balance
import Mathlib.Logic.Relation

/-!
# Cascades in any order

The worklist of a heap is released from its front, and what a removed object owned goes to
its end in the order of the field names.  Nothing depends on that.  Releases of different
objects commute, so in a balanced heap any pending release may be carried out next, and what
it frees may join the worklist anywhere: a cascade always ends, no release on the way is
refused, and all ways end in the same heap.
-/

namespace Custody

namespace Object

/-- The object with one holder less, removed if that was the last one. -/
def drop (object : Object) : Object :=
  if object.count = 1 then object.lower.bury else object.lower

end Object

namespace Heap

open Relation

variable {heap next : Heap} {held rest order : List Ref} {ref other : Ref}

/-! ## One release -/

/-- What the release of an object adds to the worklist. -/
def freed (heap : Heap) (ref : Ref) : List Ref :=
  if (heap.object ref).count = 1 then (heap.object ref).fields.values else []

/-- The heap after the release of an object that is held. -/
def dropped (heap : Heap) (ref : Ref) : Heap :=
  { heap.update ref .drop with
    live := if (heap.object ref).count = 1 then heap.live.erase (heap.object ref).id else heap.live
    pending := heap.pending ++ heap.freed ref }

theorem release_of_held (present : (heap.object ref).released = false)
    (positive : (heap.object ref).count ≠ 0) : release ref heap = .ok () (heap.dropped ref) := by
  have inside := lt_of_not_released present
  unfold release
  simp only [present, Bool.false_or, beq_iff_eq, positive, ↓reduceIte]
  by_cases single : (heap.object ref).count = 1
  · have lowered : (heap.update ref .lower).object ref = (heap.object ref).lower :=
      object_update_self inside
    have buried : (heap.update ref .lower).update ref .bury = heap.update ref .drop := by
      have merged : (heap.update ref .lower).update ref .bury =
          heap.update ref fun object => object.lower.bury := by
        simp only [update, List.modify_modify_eq]
        rfl
      rw [merged]
      exact update_congr (by simp [Object.drop, single])
    simp only [single, ↓reduceIte, remove, lowered, buried, dropped, freed]
    rfl
  · have kept : heap.update ref .lower = heap.update ref .drop :=
      update_congr (by simp [Object.drop, single])
    simp only [single, ↓reduceIte, dropped, freed, List.append_nil, kept]
    rfl

theorem dropped_live (heap : Heap) (ref : Ref) :
    (heap.dropped ref).live =
      if (heap.object ref).count = 1 then heap.live.erase (heap.object ref).id else heap.live :=
  rfl

theorem object_dropped_of_ne (apart : other ≠ ref) :
    (heap.dropped ref).object other = heap.object other := by
  have kept : (heap.update ref .drop).object other = heap.object other := object_update_of_ne apart
  exact kept

/-- Releases of different objects commute, up to the order of the worklist. -/
theorem dropped_comm (apart : ref ≠ other) (order : List Ref) :
    { (heap.dropped ref).dropped other with pending := order } =
      { (heap.dropped other).dropped ref with pending := order } := by
  have objects : ((heap.dropped ref).dropped other).objects =
      ((heap.dropped other).dropped ref).objects :=
    List.modify_modify_ne _ _ _ apart
  have live : ((heap.dropped ref).dropped other).live = ((heap.dropped other).dropped ref).live := by
    simp only [dropped_live, object_dropped_of_ne apart, object_dropped_of_ne (Ne.symm apart)]
    split <;> split
    · exact Table.erase_comm heap.live _ _
    all_goals rfl
  exact (Heap.mk.injEq ..).mpr ⟨objects, live, rfl, rfl⟩

theorem freed_dropped_of_ne (apart : other ≠ ref) : (heap.dropped ref).freed other = heap.freed other := by
  simp only [freed, object_dropped_of_ne apart]

/-- Two releases carried out in either order, where each adds what it frees to what is left to
do: the heaps differ in the order of their worklists at most. -/
theorem dropped_meet (apart : ref ≠ other) (left : List Ref) :
    let forth := { heap.dropped ref with pending := left ++ heap.freed ref }.dropped other
    let back := { heap.dropped other with pending := left ++ heap.freed other }.dropped ref
    forth.pending.Perm back.pending ∧ { forth with pending := back.pending } = back := by
  refine ⟨?_, dropped_comm apart _⟩
  change (left ++ heap.freed ref ++ (heap.dropped ref).freed other).Perm
    (left ++ heap.freed other ++ (heap.dropped other).freed ref)
  rw [freed_dropped_of_ne apart, freed_dropped_of_ne (Ne.symm apart), List.append_assoc,
    List.append_assoc]
  exact List.perm_append_comm.append_left left

/-! ## Releases that are due -/

theorem workload_reordered (same : heap.pending.Perm order) :
    { heap with pending := order }.workload = heap.workload := by
  simp only [workload, slots, same.length_eq]

namespace Balanced

/-- The order of the worklist does not matter for the balance. -/
theorem reordered (balanced : heap.Balanced held) (same : heap.pending.Perm order) :
    { heap with pending := order }.Balanced held where
  count ref := by
    have counted := balanced.count ref
    rw [references, same.count_eq] at counted
    exact counted
  retired := balanced.retired

/-- Any pending release can be carried out next. -/
theorem pick (balanced : heap.Balanced held) (due : heap.pending.Perm (ref :: rest)) :
    Heap.release ref { heap with pending := rest } =
        .ok () ({ heap with pending := rest }.dropped ref) ∧
      ({ heap with pending := rest }.dropped ref).Balanced held := by
  have picked : { heap with pending := rest }.Balanced (ref :: held) :=
    (balanced.reordered due).popPending rfl
  have positive : ({ heap with pending := rest }.object ref).count ≠ 0 := by
    have counted := picked.count ref
    rw [List.count_cons_self] at counted
    omega
  have same := release_of_held (picked.not_released_of_mem (.head _)) positive
  obtain ⟨next, released, kept⟩ := picked.release
  rw [same] at released
  cases released
  exact ⟨same, kept⟩

/-- Carrying it out makes the workload smaller. -/
theorem workload_pick (balanced : heap.Balanced held) (due : heap.pending.Perm (ref :: rest)) :
    ({ heap with pending := rest }.dropped ref).workload < heap.workload := by
  have shorter : rest.length < heap.pending.length := by
    rw [due.length_eq]
    exact Nat.lt_succ_self _
  rw [workload_release (balanced.pick due).1]
  exact Nat.add_lt_add_right shorter _

/-! ## Draining -/

/-- Where draining may start anywhere, the order of the worklist does not matter. -/
theorem drain_reordered_of_picks (balanced : heap.Balanced held) (same : heap.pending.Perm order)
    (picks : ∀ {ref rest}, heap.pending.Perm (ref :: rest) →
      Heap.drain heap = Heap.drain ({ heap with pending := rest }.dropped ref)) :
    Heap.drain { heap with pending := order } = Heap.drain heap := by
  cases order with
  | nil =>
      have none : heap.pending = [] := List.perm_nil.1 same
      exact congrArg Heap.drain ((Heap.mk.injEq ..).mpr ⟨rfl, rfl, rfl, none.symm⟩)
  | cons first others =>
      rw [picks same]
      exact drain_of_released rfl (balanced.pick same).1

/-- Draining may start with any pending release. -/
theorem drain_pick (balanced : heap.Balanced held) (due : heap.pending.Perm (ref :: rest)) :
    Heap.drain heap = Heap.drain ({ heap with pending := rest }.dropped ref) := by
  induction load : heap.workload using Nat.strongRecOn generalizing heap ref rest with
  | ind load ih =>
  subst load
  have reorder : ∀ {lighter : Heap} {order : List Ref}, lighter.workload < heap.workload →
      lighter.Balanced held → lighter.pending.Perm order →
      Heap.drain { lighter with pending := order } = Heap.drain lighter :=
    fun less kept same => kept.drain_reordered_of_picks same fun due => ih _ less kept due rfl
  cases front : heap.pending with
  | nil =>
      rw [front] at due
      exact absurd due.symm (List.not_perm_cons_nil)
  | cons first others =>
      have started : heap.pending.Perm (first :: others) := .of_eq front
      have step : Heap.drain heap = Heap.drain ({ heap with pending := others }.dropped first) :=
        drain_of_released front (balanced.pick started).1
      rw [step]
      have swapped := started.symm.trans due
      by_cases same : first = ref
      · subst same
        exact (reorder (balanced.workload_pick started) (balanced.pick started).2
          (swapped.cons_inv.append_right _)).symm
      · -- Both are pending, and it is the same to release one first or the other.
        have member : ref ∈ others :=
          (List.mem_cons.1 (swapped.symm.subset (.head _))).resolve_left (Ne.symm same)
        obtain ⟨left, split⟩ : ∃ left, others.Perm (ref :: left) := ⟨_, List.perm_cons_erase member⟩
        have remaining : rest.Perm (first :: left) :=
          ((swapped.symm.trans (split.cons first)).trans (.swap ..)).cons_inv
        have target := balanced.pick due
        have here := balanced.pick started
        have lighter := balanced.workload_pick started
        have nextUp : ({ heap with pending := others }.dropped first).pending.Perm
            (ref :: (left ++ heap.freed first)) := split.append_right _
        have nextDown : ({ heap with pending := rest }.dropped ref).pending.Perm
            (first :: (left ++ heap.freed ref)) := remaining.append_right _
        rw [ih _ lighter here.2 nextUp rfl, ih _ (balanced.workload_pick due) target.2 nextDown rfl]
        obtain ⟨joined, equal⟩ := dropped_meet same left
        have lightest := Nat.lt_trans (here.2.workload_pick nextUp) lighter
        refine (reorder lightest (here.2.pick nextUp).2 joined).symm.trans ?_
        exact congrArg Heap.drain equal

/-- Draining comes to the same whatever the order of the worklist is. -/
theorem drain_reordered (balanced : heap.Balanced held) (same : heap.pending.Perm order) :
    Heap.drain { heap with pending := order } = Heap.drain heap :=
  balanced.drain_reordered_of_picks same balanced.drain_pick

end Balanced

/-! ## Cascades -/

/-- One release of a cascade that keeps to no order: any pending release may be carried out,
and what it frees is enqueued in any order. -/
inductive Cascades : Heap → Heap → Prop
  | release {heap next : Heap} {ref : Ref} {rest order : List Ref}
      (due : heap.pending.Perm (ref :: rest))
      (released : Heap.release ref { heap with pending := rest } = .ok () next)
      (enqueued : next.pending.Perm order) : Cascades heap { next with pending := order }

/-- However a cascade goes on, it ends, no release on the way is refused, and what is left in
the end is the same. -/
structure Settles (heap last : Heap) : Prop where
  ends : Acc (Function.swap Cascades) heap
  allowed : ∀ {next ref rest}, ReflTransGen Cascades heap next →
    next.pending.Perm (ref :: rest) →
      ∃ after, Heap.release ref { next with pending := rest } = .ok () after
  same : ∀ {next}, ReflTransGen Cascades heap next → next.pending = [] → next = last

namespace Balanced

/-- A release of a cascade keeps the heap balanced, makes the workload smaller, and changes
nothing about where draining ends. -/
theorem cascades (balanced : heap.Balanced held) (step : Cascades heap next) :
    next.Balanced held ∧ next.workload < heap.workload ∧ Heap.drain next = Heap.drain heap := by
  cases step with
  | release due released enqueued =>
      obtain ⟨picked, kept⟩ := balanced.pick due
      cases released.symm.trans picked
      refine ⟨kept.reordered enqueued, ?_, ?_⟩
      · rw [workload_reordered enqueued]
        exact balanced.workload_pick due
      · rw [kept.drain_reordered enqueued, balanced.drain_pick due]

theorem cascades_many (balanced : heap.Balanced held) (run : ReflTransGen Cascades heap next) :
    next.Balanced held ∧ Heap.drain next = Heap.drain heap := by
  induction run with
  | refl => exact ⟨balanced, rfl⟩
  | tail _ step ih =>
      obtain ⟨kept, _, drained⟩ := ih.1.cascades step
      exact ⟨kept, drained.trans ih.2⟩

theorem acc_cascades (balanced : heap.Balanced held) : Acc (Function.swap Cascades) heap := by
  induction load : heap.workload using Nat.strongRecOn generalizing heap with
  | ind load ih =>
      subst load
      refine .intro heap fun next step => ?_
      obtain ⟨kept, lighter, _⟩ := balanced.cascades step
      exact ih _ lighter kept rfl

/-- Draining a balanced heap ends without error, and it ends in the same heap for every order
of the worklist and of what the releases on the way add to it. -/
theorem drain_unordered (balanced : heap.Balanced held) :
    ∃ last, Heap.drain heap = .ok () last ∧ heap.Settles last ∧
      ∀ order, heap.pending.Perm order → Heap.drain { heap with pending := order } = .ok () last := by
  obtain ⟨last, drained, _⟩ := balanced.drain
  refine ⟨last, drained, ⟨balanced.acc_cascades, ?_, ?_⟩, fun order same => ?_⟩
  · intro next ref rest run due
    exact ⟨_, ((balanced.cascades_many run).1.pick due).1⟩
  · intro next run settled
    have same := (balanced.cascades_many run).2
    rw [drain_of_settled settled, drained] at same
    cases same
    rfl
  · rw [balanced.drain_reordered same, drained]

end Balanced

/-! ## A heap with shared objects and a cycle -/

/-- Two pairs share a cell, and with it the first pair shares another cell, which is held
besides; a ring holds itself and a cell of its own.  The releases of the pairs and of the ring
are due. -/
def thicket : Heap where
  objects :=
    [{ Object.fresh 1 "Pair" false with count := 1, fields := .ofList [("left", 2), ("right", 3)] },
      { Object.fresh 2 "Pair" false with count := 1, fields := .ofList [("left", 2)] },
      { Object.fresh 3 "Cell" false with count := 2, fields := .ofList [("next", 3)] },
      { Object.fresh 4 "Cell" true with count := 3 },
      { Object.fresh 5 "Ring" false with count := 2, fields := .ofList [("item", 5), ("self", 4)] },
      { Object.fresh 6 "Cell" false with count := 1 }]
  live := .ofList [(1, 0), (2, 1), (3, 2), (4, 3), (5, 4), (6, 5)]
  lastId := 6
  pending := [0, 4, 1]

theorem balanced_thicket : thicket.Balanced [3] := by decide +kernel

theorem drain_unordered_thicket :
    thicket.Balanced [3] ∧ ∃ last, drain thicket = .ok () last ∧ thicket.Settles last ∧
      ∀ order, thicket.pending.Perm order → drain { thicket with pending := order } = .ok () last :=
  ⟨balanced_thicket, Balanced.drain_unordered balanced_thicket⟩

end Heap

end Custody
