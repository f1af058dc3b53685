import Custody.Memory

/-!
# Families of heaps

Several heaps may work on one store of objects.  Each has its own index of live
objects; identifiers come from one counter for all heaps, or from one for each.
Every root scope belongs to a heap, and so do the scopes inside it.

An operation takes one heap out of the family as a `Memory`, works on that, and
puts it back.
-/

namespace Custody

namespace Heap

/-- Heaps over one store of objects, with the scopes and bindings of all. -/
structure Family where
  objects : List Object
  /-- The live objects and the last identifier of each heap. -/
  members : List (Table Nat Ref × Nat)
  /-- Do all heaps take their identifiers from one counter? -/
  shared : Bool
  scopes : List Scope
  bindings : List Binding
  /-- The heap of each scope. -/
  homes : List Nat
  deriving Inhabited

namespace Family

/-- A family of empty heaps. -/
def new (heaps : Nat) (shared : Bool) : Family where
  objects := []
  members := List.replicate heaps (∅, 0)
  shared := shared
  scopes := []
  bindings := []
  homes := []

/-- One heap of the family, as a memory of its own. -/
def memory (family : Family) (index : Nat) : Memory :=
  let (live, lastId) := family.members.getD index (∅, 0)
  { heap := { objects := family.objects, live, lastId, pending := [] }
    scopes := family.scopes
    bindings := family.bindings }

/-- Put a heap back after an operation on it.  Scopes that the operation opened
belong to that heap, and a shared counter moves on for all heaps. -/
def restore (family : Family) (index : Nat) (memory : Memory) : Family where
  objects := memory.heap.objects
  members := (family.members.set index (memory.heap.live, memory.heap.lastId)).map
    fun (live, lastId) => (live, if family.shared then memory.heap.lastId else lastId)
  shared := family.shared
  scopes := memory.scopes
  bindings := memory.bindings
  homes := family.homes ++ List.replicate (memory.scopes.length - family.homes.length) index

/-- The heap of a scope. -/
def home (family : Family) (scope : ScopeId) : Nat := family.homes.getD scope 0

/-- The outcome of a memory operation on one heap of the family. -/
def run {α : Type} (family : Family) (index : Nat) (action : Memory.Action α) :
    Except Memory.Error α × Family :=
  match action (family.memory index) with
  | .ok result memory => (.ok result, family.restore index memory)
  | .error error memory => (.error error, family.restore index memory)

end Family

end Heap

end Custody
