import Custody.Heap.Basic

/-!
# Reachability

An object reaches another one if a chain of fields leads from the first to the
second; every object reaches itself.  The search goes breadth first and keeps
the objects that occur in some field and have not been met yet.
-/

namespace Custody.Heap

/-- Move the newly met objects from the unseen ones to the end of the queue. -/
def discover (unseen queue : List Ref) : List Ref → List Ref × List Ref
  | [] => (unseen, queue)
  | ref :: rest =>
      if ref ∈ unseen then discover (unseen.filter (· != ref)) (queue ++ [ref]) rest
      else discover unseen queue rest

theorem length_discover (unseen queue found : List Ref) :
    (discover unseen queue found).1.length + (discover unseen queue found).2.length ≤
      unseen.length + queue.length := by
  induction found generalizing unseen queue with
  | nil => exact Nat.le_refl _
  | cons ref rest ih =>
      unfold discover
      split
      next member =>
        have step := ih (unseen.filter (· != ref)) (queue ++ [ref])
        have shorter : (unseen.filter (· != ref)).length < unseen.length :=
          List.length_filter_lt_length_iff_exists.2 ⟨ref, member, by simp⟩
        simp only [List.length_append, List.length_singleton] at step
        omega
      next => exact ih unseen queue

/-- Does the search from a queue meet the target? -/
def search (heap : Heap) (target : Ref) (unseen : List Ref) : List Ref → Bool
  | [] => false
  | ref :: queue =>
      if ref = target then true
      else
        let next := discover unseen queue (heap.object ref).fields.values
        search heap target next.1 next.2
  termination_by queue => unseen.length + queue.length
  decreasing_by
    have bound := length_discover unseen queue (heap.object ref).fields.values
    simp only [List.length_cons]
    omega

/-- The objects that occur in fields. -/
def fieldValues (heap : Heap) : List Ref := heap.objects.flatMap (·.fields.values)

/-- Does a chain of fields lead from one object to another? -/
def reaches (heap : Heap) (source target : Ref) : Bool :=
  heap.search target (heap.fieldValues.filter (· != source)) [source]

end Custody.Heap
