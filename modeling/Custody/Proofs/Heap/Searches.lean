import Custody.Proofs.Heap.Chains

/-!
# Searches in any order

`Heap.reaches` goes through the fields of an object in the order of their names.  A search may
go through them in any order, and in a different one each time: it always ends, and its answer
is whether a chain of fields leads to the target.

The invariant says what a search has achieved: it has met only what the source leads to, and
what it has met is waiting in the queue or has been expanded, which means that it is not the
target and that all it owns has been met.
-/

namespace Custody.Heap

open Relation

/-- A search in progress. -/
structure Search where
  /-- The objects that have been met. -/
  seen : List Ref
  /-- Those of them that are still to be looked at. -/
  queue : List Ref

namespace Search

variable {heap : Heap} {source target ref : Ref} {search next : Search}

/-- The search for what an object leads to. -/
def start (source : Ref) : Search := ⟨[source], [source]⟩

/-- Meet an object; only what has not been met before is queued. -/
def meet (search : Search) (ref : Ref) : Search :=
  if ref ∈ search.seen then search else ⟨ref :: search.seen, search.queue ++ [ref]⟩

/-- The first object of the queue is not the target, and what it owns is met in some order. -/
inductive Step (heap : Heap) (target : Ref) : Search → Search → Prop
  | expand {seen queue order : List Ref} {ref : Ref} (apart : ref ≠ target)
      (listed : (heap.object ref).fields.values.Perm order) :
      Step heap target ⟨seen, ref :: queue⟩ (order.foldl meet ⟨seen, queue⟩)

/-- What is known of the target: the first object of the queue is the target, or there is
nothing left to look at. -/
def answer? (search : Search) (target : Ref) : Option Bool :=
  match search.queue with
  | [] => some false
  | ref :: _ => if ref = target then some true else none

/-! ## Meeting objects -/

theorem mem_seen_meet_all (order : List Ref) :
    ref ∈ (order.foldl meet search).seen ↔ ref ∈ search.seen ∨ ref ∈ order := by
  induction order generalizing search with
  | nil => simp
  | cons first rest ih =>
      rw [List.foldl_cons, ih, meet]
      by_cases same : ref = first
      · subst same
        split
        next met => simp [met]
        next => simp
      · split <;> simp [same]

/-- What is met for the first time is queued. -/
theorem mem_queue_meet_all (order : List Ref) :
    ref ∈ (order.foldl meet search).queue ↔
      ref ∈ search.queue ∨ (ref ∈ order ∧ ref ∉ search.seen) := by
  induction order generalizing search with
  | nil => simp
  | cons first rest ih =>
      rw [List.foldl_cons, ih, meet]
      by_cases same : ref = first
      · subst same
        split
        next met => simp [met]
        next fresh => simp [fresh]
      · split <;> simp [same]

/-- How much there is to do: the fields that hold an object not yet met, and the queue. -/
def load (heap : Heap) (search : Search) : Nat :=
  (heap.fieldValues.filter (· ∉ search.seen)).length + search.queue.length

/-- Meeting an object of some field does not add to the load. -/
theorem load_meet (owned : ref ∈ heap.fieldValues) : (search.meet ref).load heap ≤ search.load heap := by
  unfold meet
  split
  next => exact Nat.le_refl _
  next fresh =>
    have fewer : (heap.fieldValues.filter (· ∉ ref :: search.seen)).length <
        (heap.fieldValues.filter (· ∉ search.seen)).length := by
      have twice : heap.fieldValues.filter (· ∉ ref :: search.seen) =
          (heap.fieldValues.filter (· ∉ search.seen)).filter (· != ref) := by
        rw [List.filter_filter]
        refine List.filter_congr fun value _ => ?_
        by_cases same : value = ref <;> simp [same]
      rw [twice]
      refine List.length_filter_lt_length_iff_exists.2 ⟨ref, ?_, by simp⟩
      exact List.mem_filter.2 ⟨owned, by simpa using fresh⟩
    simp only [load, List.length_append, List.length_singleton]
    omega

theorem load_meet_all {order : List Ref} (owned : ∀ ref ∈ order, ref ∈ heap.fieldValues) :
    (order.foldl meet search).load heap ≤ search.load heap := by
  induction order generalizing search with
  | nil => exact Nat.le_refl _
  | cons first rest ih =>
      exact Nat.le_trans (ih fun ref member => owned ref (.tail _ member))
        (load_meet (owned first (.head _)))

/-- Each step takes an object off the load. -/
theorem Step.load_lt (step : Step heap target search next) : next.load heap < search.load heap := by
  cases step with
  | expand apart listed =>
      refine Nat.lt_of_le_of_lt (load_meet_all fun ref member => ?_) (Nat.lt_succ_self _)
      exact mem_fieldValues_of_owns (mem_values_iff_owns.1 (listed.mem_iff.2 member))

/-- Every search ends. -/
theorem acc_step (heap : Heap) (target : Ref) (search : Search) :
    Acc (Function.swap (Step heap target)) search := by
  induction load : search.load heap using Nat.strongRecOn generalizing search with
  | ind load ih =>
      subst load
      exact .intro search fun next step => ih _ step.load_lt next rfl

/-! ## What a search has achieved -/

/-- All that has been met is led to from the source; it is queued, or it is not the target and
all it owns has been met. -/
structure Explores (heap : Heap) (source target : Ref) (search : Search) : Prop where
  started : source ∈ search.seen
  led : ∀ {ref}, ref ∈ search.seen → heap.Leads source ref
  met : ∀ {ref}, ref ∈ search.queue → ref ∈ search.seen
  expanded : ∀ {ref}, ref ∈ search.seen → ref ∈ search.queue ∨
    (ref ≠ target ∧ ∀ value, heap.Owns ref value → value ∈ search.seen)

namespace Explores

theorem start (heap : Heap) (source target : Ref) : Explores heap source target (.start source) where
  started := .head _
  led member := by
    cases List.mem_singleton.1 member
    exact .refl
  met member := member
  expanded member := .inl member

theorem step (explores : Explores heap source target search)
    (taken : Step heap target search next) : Explores heap source target next := by
  cases taken with
  | @expand seen queue order first apart listed =>
      have owned : ∀ {value}, value ∈ order ↔ heap.Owns first value :=
        listed.mem_iff.symm.trans mem_values_iff_owns
      refine ⟨?_, ?_, ?_, ?_⟩
      · exact (mem_seen_meet_all order).2 (.inl explores.started)
      · intro ref member
        rcases (mem_seen_meet_all order).1 member with before | here
        · exact explores.led before
        · exact (explores.led (explores.met (.head _))).tail (owned.1 here)
      · intro ref member
        refine (mem_seen_meet_all order).2 ?_
        rcases (mem_queue_meet_all order).1 member with before | ⟨here, _⟩
        · exact .inl (explores.met (.tail _ before))
        · exact .inr here
      · intro ref member
        by_cases before : ref ∈ seen
        · rcases explores.expanded before with queued | ⟨other, all⟩
          · rcases List.mem_cons.1 queued with rfl | waiting
            · exact .inr ⟨apart, fun value owns => (mem_seen_meet_all order).2 (.inr (owned.2 owns))⟩
            · exact .inl ((mem_queue_meet_all order).2 (.inl waiting))
          · exact .inr ⟨other, fun value owns =>
              (mem_seen_meet_all order).2 (.inl (all value owns))⟩
        · have here := ((mem_seen_meet_all order).1 member).resolve_left before
          exact .inl ((mem_queue_meet_all order).2 (.inr ⟨here, before⟩))

theorem steps (explores : Explores heap source target search)
    (run : ReflTransGen (Step heap target) search next) : Explores heap source target next := by
  induction run with
  | refl => exact explores
  | tail _ taken ih => exact ih.step taken

/-- With nothing left in the queue, all that the source leads to has been met, and none of it
is the target. -/
theorem not_leads_of_exhausted (explores : Explores heap source target search)
    (exhausted : search.queue = []) : ¬heap.Leads source target := by
  have done : ∀ {ref}, ref ∈ search.seen →
      ref ≠ target ∧ ∀ value, heap.Owns ref value → value ∈ search.seen := by
    intro ref member
    refine (explores.expanded member).resolve_left ?_
    rw [exhausted]
    exact List.not_mem_nil
  have met : ∀ {ref}, heap.Leads source ref → ref ∈ search.seen := by
    intro ref leads
    induction leads with
    | refl => exact explores.started
    | tail _ owns ih => exact (done ih).2 _ owns
  exact fun leads => (done (met leads)).1 rfl

/-- The answer is known, and it is right, or there is a step to take. -/
theorem answers (explores : Explores heap source target search) :
    search.answer? target = some (heap.reaches source target) ∨
      (search.answer? target = none ∧ ∃ next, Step heap target search next) := by
  obtain ⟨seen, queue⟩ := search
  cases queue with
  | nil =>
      have none := explores.not_leads_of_exhausted rfl
      rw [← reaches_iff, Bool.not_eq_true] at none
      exact .inl (congrArg some none.symm)
  | cons ref queue =>
      by_cases found : ref = target
      · subst found
        have leads := reaches_iff.2 (explores.led (explores.met (.head _)))
        exact .inl (by simp [answer?, leads])
      · exact .inr ⟨by simp [answer?, found], _, .expand found (.refl _)⟩

end Explores

end Search

/-- `reaches` says whether a chain of fields leads from one object to the other.  A search that
goes through fields in any order ends, and once it knows an answer, it is this one. -/
theorem reaches_in_any_order (heap : Heap) (source target : Ref) :
    (heap.reaches source target = true ↔ heap.Leads source target) ∧
      Acc (Function.swap (Search.Step heap target)) (.start source) ∧
      ∀ search, ReflTransGen (Search.Step heap target) (.start source) search →
        search.answer? target = some (heap.reaches source target) ∨
          (search.answer? target = none ∧ ∃ next, Search.Step heap target search next) :=
  ⟨reaches_iff, Search.acc_step heap target _,
    fun _ run => ((Search.Explores.start heap source target).steps run).answers⟩

end Custody.Heap
