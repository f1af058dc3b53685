import Custody.Data.Sum
import Custody.Heap.Basic

/-!
# Counting references

Acquiring an object raises its count, releasing it lowers the count.  An object
whose count drops to zero leaves the live objects, and everything it owned is
put on the pending worklist.  The worklist is drained at the end of the
operation that started the cascade, so an object acquired by the same operation
survives even if it was owned only by what the operation released.  Cycles of
objects that own each other are never freed.

Draining ends in every heap: each step takes one entry from the worklist, and
each entry that a step adds was a field of an object that is released from then
on.  `Heap.workload` counts both.
-/

namespace Custody.Heap

/-- Remove an object from the live objects and schedule the release of all it
owns, in the order of its field names. -/
def remove (ref : Ref) (heap : Heap) : Heap :=
  { heap.update ref .bury with
    live := heap.live.erase (heap.object ref).id
    pending := heap.pending ++ (heap.object ref).fields.values }

/-- Lower the count of an object, and remove it at zero. -/
def release (ref : Ref) : Action Unit := fun heap =>
  let object := heap.object ref
  if object.released || object.count == 0 then .error (.unref object.label) heap
  else if object.count == 1 then .ok () ((heap.update ref .lower).remove ref)
  else .ok () (heap.update ref .lower)

/-- The slots of all objects together. -/
def slots (heap : Heap) : Nat := heap.objects.foldr (Object.slots · + ·) 0

/-- The pending releases and the slots that may still add to them. -/
def workload (heap : Heap) : Nat := heap.pending.length + heap.slots

/-- A change of one object moves the slots of the store by as much as it moves
those of the object. -/
theorem slots_update {heap : Heap} {ref : Ref} (change : Object → Object)
    (inside : ref < heap.objects.length) :
    (heap.update ref change).slots + (heap.object ref).slots =
      heap.slots + (change (heap.object ref)).slots := by
  rw [object_of_lt inside]
  exact foldr_add_modify Object.slots change heap.objects ref inside

/-- Removing an object turns its slots into pending releases. -/
theorem workload_remove {heap : Heap} {ref : Ref} (held : (heap.object ref).released = false) :
    (heap.remove ref).workload = heap.workload := by
  have moved := slots_update .bury (lt_of_not_released held)
  have owned : (heap.object ref).slots = (heap.object ref).fields.values.length := by
    simp [Object.slots, held, Table.size, Table.values]
  simp only [workload, slots, remove, update, List.length_append, Object.slots_bury] at moved ⊢
  omega

/-- Lowering a count leaves the workload as it is. -/
theorem workload_lower {heap : Heap} {ref : Ref} (inside : ref < heap.objects.length) :
    (heap.update ref .lower).workload = heap.workload := by
  have moved := slots_update .lower inside
  simp only [workload, slots, update, Object.slots_lower] at moved ⊢
  omega

/-- A successful release leaves the workload as it is. -/
theorem workload_release {heap next : Heap} {ref : Ref}
    (released : release ref heap = .ok () next) : next.workload = heap.workload := by
  unfold release at released
  dsimp only at released
  split at released
  · cases released
  next refused =>
    have held : (heap.object ref).released = false := by
      cases flag : (heap.object ref).released <;> simp_all
    have inside := lt_of_not_released held
    split at released <;> cases released
    · rw [workload_remove, workload_lower inside]
      rw [object_update_self inside]
      exact held
    · exact workload_lower inside

/-- Release everything that is pending, in order.  A failure drops the rest of
the worklist. -/
def drain : Action Unit := fun heap =>
  match due : heap.pending with
  | [] => .ok () heap
  | ref :: rest =>
      match released : release ref { heap with pending := rest } with
      | .ok () next =>
          have lighter : next.workload < heap.workload := by
            rw [workload_release released]
            simp [workload, slots, due]
          drain next
      | .error error next => .error error { next with pending := [] }
  termination_by heap => heap.workload

/-- Take a reference to an object; to none, nothing happens. -/
def ref : Option Ref → Action Unit
  | none => pure ()
  | some ref => fun heap =>
      let object := heap.object ref
      if object.released then .error (.ref object.label) heap
      else .ok () (heap.update ref .raise)

/-- Drop a reference to an object and free what is no longer referred to. -/
def unref : Option Ref → Action Unit
  | none => pure ()
  | some ref => do
      release ref
      drain

/-- Raise the count of an object that is about to be held. -/
def acquire : Option Ref → Action Unit
  | none => pure ()
  | some ref => modify fun heap => heap.update ref .raise

/-- Release an object that is no longer held, leaving what it owned pending. -/
def letGo : Option Ref → Action Unit
  | none => pure ()
  | some ref => release ref

/-- Is there an object, and is it released? -/
def isReleased (heap : Heap) : Option Ref → Bool
  | none => false
  | some ref => (heap.object ref).released

/-- Take the occupant out of a field and release it. -/
def vacate (owner : Ref) (name : String) : Option Ref → Action Unit
  | none => pure ()
  | some occupant => do
      modify fun heap => heap.update owner (.withoutField name)
      release occupant

/-- Put an object into a field that is free. -/
def occupy (owner : Ref) (name : String) : Option Ref → Action Unit
  | none => pure ()
  | some value => do
      modify fun heap => heap.update owner (.withField name value)
      acquire (some value)

/-- Store an object, or none, in a field.  The previous occupant is released
before the new one is acquired, and its cascade runs after that. -/
def setField (owner : Option Ref) (name : String) (value : Option Ref) : Action Unit := fun heap =>
  match owner with
  | none => .error (.setFieldOfNone name) heap
  | some owner =>
      let object := heap.object owner
      let occupant := object.fields.find? name
      if object.released then .error (.setField name object.label) heap
      else if occupant = value then .ok () heap
      else match value.filter fun value => heap.isReleased (some value) with
        | some value => .error (.store (heap.object value).label object.label name) heap
        | none =>
            (do
              vacate owner name occupant
              occupy owner name value
              drain : Action Unit) heap

/-- Let one object go and acquire another in its place; the cascade of the
first runs after that. -/
def transfer (old value : Option Ref) : Action Unit := fun heap =>
  if old = value then .ok () heap
  else match value.filter fun value => heap.isReleased (some value) with
    | some value => .error (.acquire (heap.object value).label) heap
    | none =>
        (do
          letGo old
          acquire value
          drain : Action Unit) heap

/-- Free the live objects that nobody refers to: temporaries that were allocated
and never acquired. -/
def sweep : Action Unit := fun heap =>
  let garbage := heap.live.values.filter fun ref => (heap.object ref).count == 0
  drain <| garbage.foldl
    (fun heap ref =>
      if (heap.object ref).released || (heap.object ref).count != 0 then heap
      else heap.remove ref)
    heap

end Custody.Heap
