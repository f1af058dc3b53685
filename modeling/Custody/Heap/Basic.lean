import Custody.Data.Table

/-!
# The object heap

A heap simulates objects that own other objects through named fields and are
freed by counting references.  Objects live in one store and are addressed by
their place in it; an object is never moved or deleted there, it is only marked
as released.  A place outside the store reads as an object released long ago, so
every operation is defined at every place.

Apart from the store a heap has an index of its live objects by identifier, the
last identifier it handed out, and the worklist of objects whose release is
pending.
-/

namespace Custody

/-- The place of an object in the store. -/
abbrev Ref : Type := Nat

/-- A simulated object. -/
structure Object where
  /-- Identifiers are handed out in ascending order. -/
  id : Nat
  /-- The declared type, empty if unknown. -/
  type : String
  /-- How many references there are to the object. -/
  count : Nat
  /-- The objects owned through fields. -/
  fields : Table String Ref
  /-- Has the object been removed from the live objects? -/
  released : Bool
  /-- Does the object stand for state of the caller? -/
  isExternal : Bool
  deriving DecidableEq, Inhabited

namespace Object

/-- An object as it is allocated. -/
def fresh (id : Nat) (type : String) (isExternal : Bool) : Object where
  id := id
  type := type
  count := 0
  fields := ∅
  released := false
  isExternal := isExternal

/-- The object at every place outside the store. -/
def gone : Object := { fresh 0 "" false with released := true }

/-- How an object is named in messages. -/
structure Label where
  id : Nat
  type : String
  deriving DecidableEq, Inhabited, Repr

/-- The label of an object. -/
def label (object : Object) : Label := ⟨object.id, object.type⟩

/-- The written form of a label, such as `#1(T)`. -/
def Label.text (label : Label) : String :=
  "#" ++ toString label.id ++ "(" ++ label.type ++ ")"

/-- The object with one more reference to it. -/
def raise (object : Object) : Object := { object with count := object.count + 1 }

/-- The object with one reference less to it. -/
def lower (object : Object) : Object := { object with count := object.count - 1 }

/-- The object after its release, when it owns nothing any more. -/
def bury (object : Object) : Object := { object with released := true, fields := ∅ }

/-- The object with a field occupied. -/
def withField (name : String) (value : Ref) (object : Object) : Object :=
  { object with fields := object.fields.insert name value }

/-- The object with a field left free. -/
def withoutField (name : String) (object : Object) : Object :=
  { object with fields := object.fields.erase name }

/-- The number of fields through which an object that is not released owns
others. -/
def slots (object : Object) : Nat := if object.released then 0 else object.fields.size

@[simp] theorem slots_raise (object : Object) : object.raise.slots = object.slots := rfl

@[simp] theorem slots_lower (object : Object) : object.lower.slots = object.slots := rfl

@[simp] theorem slots_bury (object : Object) : object.bury.slots = 0 := rfl

end Object

/-- The objects, the index of the live ones, and the releases that are due. -/
structure Heap where
  objects : List Object
  live : Table Nat Ref
  lastId : Nat
  pending : List Ref
  deriving DecidableEq, Inhabited

namespace Heap

/-- What can go wrong in a heap. -/
inductive Error where
  /-- A released object is referenced. -/
  | ref (label : Object.Label)
  /-- An object nobody refers to is released. -/
  | unref (label : Object.Label)
  /-- A field of no object is set. -/
  | setFieldOfNone (name : String)
  /-- A field of a released object is set. -/
  | setField (name : String) (owner : Object.Label)
  /-- A released object is stored in a field. -/
  | store (value owner : Object.Label) (name : String)
  /-- A released object is acquired. -/
  | acquire (label : Object.Label)
  deriving DecidableEq, Repr

namespace Error

/-- Is the error an attempt to release an object once too often? -/
def isDoubleRelease : Error → Bool
  | unref _ => true
  | _ => false

/-- The wording of an error. -/
def message : Error → String
  | ref label => "ref " ++ label.text ++ ": use after release"
  | unref label => "unref " ++ label.text ++ ": double release"
  | setFieldOfNone name => "set field " ++ name ++ " of nil object: use after release"
  | setField name owner => "set field " ++ name ++ " of " ++ owner.text ++ ": use after release"
  | store value owner name =>
      "store " ++ value.text ++ " in " ++ owner.text ++ "." ++ name ++ ": use after release"
  | acquire label => "acquire " ++ label.text ++ ": use after release"

end Error

/-- The heap without objects that goes on counting after an identifier. -/
def startingAfter (lastId : Nat) : Heap := ⟨[], ∅, lastId, []⟩

/-- The heap without objects. -/
def empty : Heap := startingAfter 0

/-- The object at a place. -/
def object (heap : Heap) (ref : Ref) : Object := heap.objects.getD ref .gone

/-- Change the object at a place. -/
def update (heap : Heap) (ref : Ref) (change : Object → Object) : Heap :=
  { heap with objects := heap.objects.modify ref change }

/-- The occupant of a field. -/
def field? (heap : Heap) (owner : Ref) (name : String) : Option Ref :=
  (heap.object owner).fields.find? name

/-- Is there a live object with the identifier? -/
def isLive (heap : Heap) (id : Nat) : Bool := heap.live.contains id

/-- The number of live objects. -/
def size (heap : Heap) : Nat := heap.live.size

/-- An operation on a heap.  The heap after a failed operation shows how far the
operation came. -/
abbrev Action : Type → Type := EStateM Error Heap

/-- Allocate a live object that nobody refers to. -/
def allocate (type : String) (isExternal : Bool) : Action Ref := fun heap =>
  let id := heap.lastId + 1
  let ref := heap.objects.length
  .ok ref
    { heap with
      objects := heap.objects ++ [.fresh id type isExternal]
      live := heap.live.insert id ref
      lastId := id }

/-- The state of a live object, as far as a snapshot shows it. -/
structure ObjectState where
  id : Nat
  count : Nat
  type : String
  fields : List String
  deriving DecidableEq, Inhabited, Repr

/-- The live objects in the order of their identifiers. -/
def snapshot (heap : Heap) : List ObjectState :=
  heap.live.values.map fun ref =>
    let object := heap.object ref
    { id := object.id, count := object.count, type := object.type, fields := object.fields.keys }

section Store

variable {heap : Heap} {ref other : Ref} {change : Object → Object}

theorem object_of_lt (inside : ref < heap.objects.length) :
    heap.object ref = heap.objects[ref] := by
  simp [object, List.getD, inside]

theorem object_of_le (outside : heap.objects.length ≤ ref) : heap.object ref = .gone := by
  simp [object, List.getD, outside]

/-- Only released objects lie outside the store. -/
theorem lt_of_not_released (held : (heap.object ref).released = false) :
    ref < heap.objects.length := by
  rcases Nat.lt_or_ge ref heap.objects.length with inside | outside
  · exact inside
  · simp [object_of_le outside, Object.gone] at held

@[simp] theorem length_objects_update :
    (heap.update ref change).objects.length = heap.objects.length := by
  simp [update]

theorem object_update_self (inside : ref < heap.objects.length) :
    (heap.update ref change).object ref = change (heap.object ref) := by
  simp [object, update, List.getD, inside]

theorem object_update_of_ne (different : other ≠ ref) :
    (heap.update ref change).object other = heap.object other := by
  simp only [object, update, List.getD, List.getElem?_modify]
  split
  · next equal => exact absurd equal.symm different
  · simp

end Store

end Heap

end Custody
