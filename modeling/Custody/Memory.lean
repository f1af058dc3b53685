import Custody.Heap.Discipline

/-!
# Scopes and bindings

A memory is a heap together with nested scopes of variables.  A binding ties a
name to an object and owns one reference to it: declaring acquires, rebinding
lets the previous object go before it acquires the next one, and closing a scope
releases all its bindings, the last declared first.

A scope knows the scopes around it, nearest first, and the bindings declared in
it, in order.  Bindings outlive their scope: one that was kept can be rebound
after its scope has been closed.
-/

namespace Custody

/-- The place of a scope in a memory. -/
abbrev ScopeId : Type := Nat

/-- The place of a binding in a memory. -/
abbrev BindingId : Type := Nat

/-- A name, its declared type, and the object it stands for now. -/
structure Binding where
  name : String
  type : String
  object : Option Ref
  deriving DecidableEq, Inhabited

/-- A scope of variables. -/
structure Scope where
  /-- The scopes around this one, nearest first. -/
  enclosing : List ScopeId
  /-- The bindings of the scope in the order of their declaration. -/
  declared : List BindingId
  closed : Bool
  deriving DecidableEq, Inhabited

/-- A heap, and the scopes and bindings that hold its objects. -/
structure Memory where
  heap : Heap
  scopes : List Scope
  bindings : List Binding
  deriving DecidableEq, Inhabited

namespace Memory

/-- What can go wrong with scopes and bindings. -/
inductive Error where
  /-- A heap operation outside any scope failed. -/
  | heap (error : Heap.Error)
  /-- A name is declared in a scope that is closed. -/
  | closed (name : String)
  | declare (name : String) (error : Heap.Error)
  | rebind (name : String) (error : Heap.Error)
  /-- Bindings that could not be released when their scope was closed. -/
  | close (failures : List (String × Heap.Error))
  deriving DecidableEq, Repr

namespace Error

/-- The heap errors behind an error. -/
def causes : Error → List Heap.Error
  | heap error | declare _ error | rebind _ error => [error]
  | closed _ => []
  | close failures => failures.map (·.2)

/-- Is some object released once too often? -/
def isDoubleRelease (error : Error) : Bool := error.causes.any (·.isDoubleRelease)

/-- The wording of an error. -/
def message : Error → String
  | heap error => error.message
  | closed name => "declare " ++ name ++ " in closed scope: use after release"
  | declare name error => "declare " ++ name ++ ": " ++ error.message
  | rebind name error => "rebind " ++ name ++ ": " ++ error.message
  | close failures =>
      "\n".intercalate (failures.map fun (name, error) =>
        "release " ++ name ++ ": " ++ error.message)

end Error

/-- The message of a name that is bound nowhere. -/
def notFoundMessage (name : String) : String := name ++ ": variable not found"

/-- A memory without scopes over a heap. -/
def ofHeap (heap : Heap) : Memory := ⟨heap, [], []⟩

/-- An operation on a memory. -/
abbrev Action : Type → Type := EStateM Error Memory

/-- Run a heap operation; its errors are put into words by the caller. -/
def onHeap {α : Type} (explain : Heap.Error → Error) (action : Heap.Action α) : Action α :=
  fun memory =>
    match action memory.heap with
    | .ok result heap => .ok result { memory with heap }
    | .error error heap => .error (explain error) { memory with heap }

/-- The scope at a place; where there is none, a closed one. -/
def scope (memory : Memory) (scope : ScopeId) : Scope :=
  memory.scopes.getD scope ⟨[], [], true⟩

/-- The binding at a place; where there is none, one that holds nothing. -/
def binding (memory : Memory) (binding : BindingId) : Binding :=
  memory.bindings.getD binding ⟨"", "", none⟩

/-- Open a scope inside others, nearest first. -/
def openScope (enclosing : List ScopeId) : Action ScopeId := fun memory =>
  .ok memory.scopes.length { memory with scopes := memory.scopes ++ [⟨enclosing, [], false⟩] }

/-- Open a scope that is in no other. -/
def openRoot : Action ScopeId := openScope []

/-- Open a scope inside another. -/
def openChild (parent : ScopeId) : Action ScopeId := fun memory =>
  openScope (parent :: (memory.scope parent).enclosing) memory

/-- The binding of a name that is declared in this very scope. -/
def declaredIn? (memory : Memory) (scope : ScopeId) (name : String) : Option BindingId :=
  (memory.scope scope).declared.find? fun binding => (memory.binding binding).name == name

/-- The binding of a name in a scope or, failing that, around it. -/
def lookup? (memory : Memory) (scope : ScopeId) (name : String) : Option BindingId :=
  (scope :: (memory.scope scope).enclosing).findSome? fun scope => memory.declaredIn? scope name

/-- Change the binding at a place. -/
def updateBinding (memory : Memory) (binding : BindingId) (change : Binding → Binding) : Memory :=
  { memory with bindings := memory.bindings.modify binding change }

/-- Change the scope at a place. -/
def updateScope (memory : Memory) (scope : ScopeId) (change : Scope → Scope) : Memory :=
  { memory with scopes := memory.scopes.modify scope change }

/-- Let a binding hold another object.  Rebinding to the object it holds leaves
the count of that object as it is. -/
def rebind (rules : Heap.Discipline) (binding : BindingId) (object : Option Ref) : Action Unit :=
  fun memory =>
    let held := memory.binding binding
    match onHeap (.rebind held.name) (rules.transfer held.object object) memory with
    | .ok () memory => .ok () (memory.updateBinding binding fun held => { held with object })
    | .error error memory => .error error memory

/-- Add a binding to a scope that has none of its name. -/
def bindFresh (scope : ScopeId) (name type : String) (object : Option Ref) : Action BindingId :=
  fun memory =>
    let binding := memory.bindings.length
    let extended : Memory := { memory with bindings := memory.bindings ++ [⟨name, type, object⟩] }
    .ok binding <| extended.updateScope scope fun scope =>
      { scope with declared := scope.declared ++ [binding] }

/-- Declare a name.  A name that the scope already has gets the new type and is
rebound. -/
def declare (rules : Heap.Discipline) (scope : ScopeId) (name type : String)
    (object : Option Ref) : Action BindingId := fun memory =>
  if (memory.scope scope).closed then .error (.closed name) memory
  else match memory.declaredIn? scope name with
    | some binding =>
        match rebind rules binding object
            (memory.updateBinding binding fun held => { held with type }) with
        | .ok () memory => .ok binding memory
        | .error error memory => .error error memory
    | none =>
        match onHeap (.declare name) (rules.ref object) memory with
        | .ok () memory => bindFresh scope name type object memory
        | .error error memory => .error error memory

/-- Release the objects of several bindings one after the other, and list those
that failed. -/
def releaseAll (rules : Heap.Discipline) : List BindingId → Memory →
    List (String × Heap.Error) × Memory
  | [], memory => ([], memory)
  | binding :: rest, memory =>
      let held := memory.binding binding
      let emptied (memory : Memory) :=
        memory.updateBinding binding fun held => { held with object := none }
      match rules.unref held.object memory.heap with
      | .ok () heap => releaseAll rules rest (emptied { memory with heap })
      | .error error heap =>
          let (failures, memory) := releaseAll rules rest (emptied { memory with heap })
          ((held.name, error) :: failures, memory)

/-- Close a scope: release its bindings, the last declared first.  Closing it
again does nothing. -/
def close (rules : Heap.Discipline) (scope : ScopeId) : Action Unit := fun memory =>
  let closing := memory.scope scope
  if closing.closed then .ok () memory
  else
    let (failures, memory) := releaseAll rules closing.declared.reverse memory
    let memory := memory.updateScope scope fun scope =>
      { scope with declared := [], closed := true }
    if failures.isEmpty then .ok () memory else .error (.close failures) memory

end Memory

end Custody
