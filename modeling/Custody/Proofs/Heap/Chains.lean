import Custody.Heap.Reach
import Mathlib.Logic.Relation

/-!
# Chains of fields

One object leads to another if a chain of fields goes from the first to the
second.  The search for an object finds it exactly if there is such a chain: it
only ever queues what a chain leads to, and as long as a chain runs through
objects that have not been met, the search has a way to its end.
-/

namespace Custody.Heap

open Relation

variable {heap : Heap} {source target owner value : Ref} {name : String}

/-- Some field of an object holds another object. -/
def Owns (heap : Heap) (owner value : Ref) : Prop := ∃ name, heap.field? owner name = some value

/-- A chain of fields goes from one object to another. -/
def Leads (heap : Heap) : Ref → Ref → Prop := ReflTransGen heap.Owns

theorem mem_values_iff_owns :
    value ∈ (heap.object owner).fields.values ↔ heap.Owns owner value := by
  simp only [Table.values, List.mem_map, Owns, field?, Table.find?_eq_some_iff]
  constructor
  · rintro ⟨⟨name, kept⟩, member, rfl⟩
    exact ⟨name, member⟩
  · rintro ⟨name, member⟩
    exact ⟨(name, value), member, rfl⟩

theorem mem_fieldValues_of_owns (owns : heap.Owns owner value) : value ∈ heap.fieldValues := by
  have member := mem_values_iff_owns.2 owns
  rcases Nat.lt_or_ge owner heap.objects.length with inside | outside
  · rw [object_of_lt inside] at member
    exact List.mem_flatMap.2 ⟨_, List.getElem_mem inside, member⟩
  · rw [object_of_le outside] at member
    cases member

/-- What is found leaves the unseen objects for the queue. -/
theorem mem_discover (unseen queue found : List Ref) (ref : Ref) :
    (ref ∈ (discover unseen queue found).1 ↔ ref ∈ unseen ∧ ref ∉ found) ∧
      (ref ∈ (discover unseen queue found).2 ↔ ref ∈ queue ∨ (ref ∈ unseen ∧ ref ∈ found)) := by
  induction found generalizing unseen queue with
  | nil => simp [discover]
  | cons first rest ih =>
      unfold discover
      split
      next member =>
        obtain ⟨one, two⟩ := ih (unseen.filter (· != first)) (queue ++ [first])
        rw [one, two]
        by_cases same : ref = first
        · subst same
          simp [member]
        · simp [same]
      next missing =>
        obtain ⟨one, two⟩ := ih unseen queue
        rw [one, two]
        by_cases same : ref = first
        · subst same
          simp [missing]
        · simp [same]

/-- The search meets only what some queued object leads to. -/
theorem leads_of_search {unseen queue : List Ref}
    (met : heap.search target unseen queue = true) : ∃ ref ∈ queue, heap.Leads ref target := by
  fun_induction search with
  | case1 => cases met
  | case2 unseen queue => exact ⟨target, .head _, .refl⟩
  | case3 unseen ref queue apart next ih =>
      obtain ⟨found, member, leads⟩ := ih met
      rcases ((mem_discover unseen queue _ found).2).1 member with queued | ⟨_, owned⟩
      · exact ⟨found, .tail _ queued, leads⟩
      · exact ⟨ref, .head _, leads.head (mem_values_iff_owns.1 owned)⟩

/-- A chain through unseen objects runs on through those that an object does not
own, from where it started or from the last one that the object owns. -/
theorem chain_of_discover {unseen : List Ref} {start : Ref} (queue : List Ref) (owner : Ref)
    (chain : ReflTransGen (fun left right => heap.Owns left right ∧ right ∈ unseen) start target) :
    ReflTransGen (fun left right => heap.Owns left right ∧
        right ∈ (discover unseen queue (heap.object owner).fields.values).1) start target ∨
      ∃ found, found ∈ (discover unseen queue (heap.object owner).fields.values).2 ∧
        ReflTransGen (fun left right => heap.Owns left right ∧
          right ∈ (discover unseen queue (heap.object owner).fields.values).1) found target := by
  induction chain with
  | refl => exact .inl .refl
  | @tail middle last _ step ih =>
      have moved := mem_discover unseen queue (heap.object owner).fields.values last
      by_cases owned : last ∈ (heap.object owner).fields.values
      · exact .inr ⟨last, moved.2.2 (.inr ⟨step.2, owned⟩), .refl⟩
      · have kept := moved.1.2 ⟨step.2, owned⟩
        rcases ih with chain | ⟨found, queued, chain⟩
        · exact .inl (chain.tail ⟨step.1, kept⟩)
        · exact .inr ⟨found, queued, chain.tail ⟨step.1, kept⟩⟩

/-- The search meets what a chain through unseen objects leads to. -/
theorem search_of_chain (unseen queue : List Ref) : ∀ start ∈ queue,
    ReflTransGen (fun left right => heap.Owns left right ∧ right ∈ unseen) start target →
      heap.search target unseen queue = true := by
  fun_induction search with
  | case1 => exact fun _ member => by cases member
  | case2 => exact fun _ _ _ => rfl
  | case3 unseen ref queue apart next ih =>
      intro start queued chain
      rcases chain_of_discover queue ref chain with kept | ⟨found, member, kept⟩
      · rcases List.mem_cons.1 queued with same | waiting
        · -- the first object is not the target, so it owns the next one on the chain
          subst same
          rcases kept.cases_head with same | ⟨second, step, _⟩
          · exact absurd same apart
          · have gone := ((mem_discover unseen queue _ second).1).1 step.2
            exact absurd (mem_values_iff_owns.2 step.1) gone.2
        · exact ih start (((mem_discover unseen queue _ start).2).2 (.inl waiting)) kept
      · exact ih found member kept

/-- The search finds exactly what a chain of fields leads to. -/
theorem reaches_iff : heap.reaches source target = true ↔ heap.Leads source target := by
  constructor
  · intro met
    obtain ⟨ref, member, leads⟩ := leads_of_search met
    cases List.mem_singleton.1 member
    exact leads
  · intro leads
    refine search_of_chain _ _ source (List.mem_singleton.2 rfl) ?_
    induction leads with
    | refl => exact .refl
    | @tail middle last _ owns ih =>
        by_cases back : last = source
        · subst back
          exact .refl
        · refine ih.tail ⟨owns, List.mem_filter.2 ⟨mem_fieldValues_of_owns owns, ?_⟩⟩
          simpa using back

end Custody.Heap
