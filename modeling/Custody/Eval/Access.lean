import Custody.Eval.Frame

/-!
# Reading and writing objects

A dotted path starts at a variable, or at a field of the receiver where there is
no such variable, and goes on through fields.  A field of an object that stands
for state of the caller is made up when it is first read, so it denotes the same
object from then on.
-/

namespace Custody.Eval

open Code

namespace Step

/-- Read a field.  The answer has the object in the field, if there is one, and
the declared type of the field. -/
def field (context : Context) (owner : Option Ref) (ownerType name : String) :
    Step (Option Ref × String) := do
  let type ← ofRegistry (context.registry.fieldType ownerType name)
  match owner with
  | none => return (none, type)
  | some owner =>
      let frame ← get
      match frame.heap.field? owner name with
      | some occupant => return (some occupant, type)
      | none =>
          let object := frame.heap.object owner
          if frame.written.contains (object.id, name) || !object.isExternal then
            return (none, type)
          else
            markWritten object.id name
            let made ← onHeap (Heap.allocate type true)
            onHeap (context.rules.setField (some owner) name (some made))
            return (some made, type)

/-- The binding of a name. -/
def lookup? (scope : ScopeId) (name : String) : Step (Option Binding) := fun frame =>
  .ok ((frame.memory.lookup? scope name).map frame.memory.binding) frame

/-- The object bound to the receiver. -/
def receiver (scope : ScopeId) : Step (Option Ref) := do
  match ← lookup? scope this with
  | some binding => return binding.object
  | none => fail (.notFound this)

/-- The first segment of a path: a variable, or a field of the receiver. -/
def first (context : Context) (scope : ScopeId) (name : String) : Step (Option Ref × String) := do
  match ← lookup? scope name with
  | some binding => return (binding.object, binding.type)
  | none => field context (← receiver scope) context.method.owner name

/-- Follow fields from an object. -/
def follow (context : Context) : Option Ref × String → List String → Step (Option Ref × String)
  | place, [] => pure place
  | (object, type), name :: rest => do
      follow context (← field context object type name) rest

/-- The object that a qualifier denotes, and its declared type. -/
def path (context : Context) (scope : ScopeId) (qualifier : String) :
    Step (Option Ref × String) := do
  let path := Path.parse qualifier
  follow context (← first context scope path.first) path.rest

/-- The object that a reference denotes. -/
def reference (context : Context) (scope : ScopeId) (target : Reference) : Step (Option Ref) := do
  if target.qualifier = "" then
    return (← first context scope target.member).1
  else
    let (owner, type) ← path context scope target.qualifier
    return (← field context owner type target.member).1

/-- Assign a field.  Everything that reaches the owner is changed, and so is
everything that reaches the value, since it has another owner now. -/
def store (context : Context) (pos : Int) (owner : Option Ref) (ownerType name : String)
    (value : Option Ref) : Step Unit := do
  let _ ← ofRegistry (context.registry.fieldType ownerType name)
  match owner with
  | none => note (.skippedStore context.method.unit (ownerType ++ "." ++ name))
  | some owner =>
      taint pos (some owner)
      taint pos value
      markWritten ((← get).heap.object owner).id name
      onHeap (context.rules.setField (some owner) name value)

/-- Assign a value to a variable or field.  The receiver itself cannot be
assigned. -/
def assign (context : Context) (scope : ScopeId) (pos : Int) (target : Reference)
    (value : Option Ref) : Step Unit := do
  if target.qualifier ≠ "" then
    let (owner, type) ← path context scope target.qualifier
    store context pos owner type target.member value
  else if target.member = this then
    skip context pos "receiver assignment"
  else
    match (← get).memory.lookup? scope target.member with
    | some binding => onMemory (Memory.rebind context.rules binding value)
    | none =>
        store context pos (← receiver scope) context.method.owner target.member value

end Step

end Custody.Eval
