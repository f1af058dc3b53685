import Custody.Heap.Counting

/-!
# Disciplines

Whoever works with a heap acquires and releases objects through a discipline,
the set of operations that decide when objects are freed.  `Discipline.counting`
is the one that is used: it counts references.
-/

namespace Custody.Heap

/-- The operations that hold, let go and free objects. -/
structure Discipline where
  ref : Option Ref → Action Unit
  unref : Option Ref → Action Unit
  setField : Option Ref → String → Option Ref → Action Unit
  transfer : Option Ref → Option Ref → Action Unit
  sweep : Action Unit

/-- Free objects by counting references. -/
def Discipline.counting : Discipline where
  ref := Heap.ref
  unref := Heap.unref
  setField := Heap.setField
  transfer := Heap.transfer
  sweep := Heap.sweep

end Custody.Heap
