import Custody.Eval.Node
import Custody.Proofs.Heap.Decay

/-!
# Steps that touch objects

The steps of an evaluation that do something to the objects of a frame get names
of their own here, and the steps around them are written in terms of these.  The
equations say what such a step does to a frame: it marks what is tracked, and then
it works on the heap.
-/

namespace Custody.Eval

open Code

/-- The unit evaluated on a heap that counts references. -/
abbrev Context.counting (registry : Registry) (summaries : Summaries) (method : Method) : Context :=
  ⟨registry, summaries, .counting, method⟩

namespace Step

/-- Put the failure of a step into other words. -/
def reword {α : Type} (explain : Failure → Failure) (step : Step α) : Step α := fun frame =>
  match step frame with
  | .ok result frame => .ok result frame
  | .error failure frame => .error (explain failure) frame

theorem ending_reword {α : Type} (explain : Failure → Failure) (step : Step α) (frame : Frame) :
    ending (reword explain step frame) = ending (step frame) := by
  unfold reword
  cases step frame <;> rfl

/-- Make up the object in a field that stands for state of the caller. -/
def materialize (context : Context) (owner : Ref) (type name : String) : Step Ref := do
  markWritten ((← get).heap.object owner).id name
  let made ← onHeap (Heap.allocate type true)
  onHeap (context.rules.setField (some owner) name (some made))
  return made

/-- The object in a field, made up if need be. -/
def read (context : Context) (owner : Ref) (type name : String) : Step (Option Ref) := do
  let frame ← get
  match frame.heap.field? owner name with
  | some occupant => return some occupant
  | none =>
      if frame.written.contains ((frame.heap.object owner).id, name) ||
          !(frame.heap.object owner).isExternal then
        return none
      else some <$> materialize context owner type name

/-- Assign a field of an object. -/
def overwrite (context : Context) (pos : Int) (owner : Ref) (name : String) (value : Option Ref) :
    Step Unit := do
  taint pos (some owner)
  taint pos value
  markWritten ((← get).heap.object owner).id name
  onHeap (context.rules.setField (some owner) name value)

/-- Attach an argument to a new object. -/
def construct (context : Context) (pos : Int) (owner : Ref) (name : String) (value : Ref) :
    Step Unit := do
  taint pos (some value)
  onHeap (context.rules.setField (some owner) name (some value))

theorem field_eq (context : Context) (owner : Option Ref) (ownerType name : String) :
    field context owner ownerType name = (do
      let type ← ofRegistry (context.registry.fieldType ownerType name)
      match owner with
      | none => return (none, type)
      | some owner => return (← read context owner type name, type)) := by
  unfold field
  congr 1
  funext type frame
  cases owner with
  | none => rfl
  | some owner =>
      have looked : ∀ (next : Frame → Step (Option Ref × String)), (get >>= next) frame =
          next frame frame := fun _ => rfl
      simp only [read, bind_assoc]
      rw [looked, looked]
      cases frame.heap.field? owner name with
      | some occupant => rfl
      | none =>
          dsimp only
          split
          · rfl
          · simp only [materialize, map_eq_pure_bind, bind_assoc, pure_bind]
            rw [looked]

theorem store_eq (context : Context) (pos : Int) (owner : Option Ref) (ownerType name : String)
    (value : Option Ref) :
    store context pos owner ownerType name value = (do
      let _ ← ofRegistry (context.registry.fieldType ownerType name)
      match owner with
      | none => note (.skippedStore context.method.unit (ownerType ++ "." ++ name))
      | some owner => overwrite context pos owner name value) := rfl

/-- The names of arguments do not matter for their evaluation. -/
theorem evalNamed_eq (context : Context) (scope : ScopeId) (args : List (String × Node)) :
    evalNamed context scope args = evalAll context scope (args.map (·.2)) := by
  induction args with
  | nil => rw [evalNamed, List.map_nil, evalAll]
  | cons arg rest ih => rw [evalNamed, List.map_cons, evalAll, ih]

/-- Attach an argument to a new object, if there is one. -/
def constructAny (context : Context) (pos : Int) (owner : Ref) (name : String) :
    Option Ref → Step Unit
  | none => pure ()
  | some value => construct context pos owner name value

theorem attach_cons (context : Context) (scope : ScopeId) (pos : Int) (owner : Ref) (index : Nat)
    (name : String) (node : Node) (rest : List (String × Node)) :
    attach context scope pos owner index ((name, node) :: rest) = (do
      let value ← eval context scope node
      constructAny context pos owner (if name = "" then "$" ++ toString index else name) value
      attach context scope pos owner (index + 1) rest) := by
  rw [attach]
  congr 1
  funext value
  cases value <;> rfl

theorem onMemory_eq_ok {α : Type} {action : Memory.Action α} {frame next : Frame} {result : α}
    (done : onMemory action frame = .ok result next) :
    ∃ memory, action frame.memory = .ok result memory ∧ next = { frame with memory } := by
  unfold onMemory at done
  split at done
  next memory finished =>
    cases done
    exact ⟨memory, finished, rfl⟩
  next => cases done

theorem ofRegistry_eq_ok {α : Type} {answer : Except Registry.Error α} {frame next : Frame}
    {result : α} (done : ofRegistry answer frame = .ok result next) :
    answer = .ok result ∧ next = frame := by
  cases answer with
  | ok other =>
      cases done
      exact ⟨rfl, rfl⟩
  | error error => cases done

theorem locate_eq_ok {α : Type} {pos : Int} {kind : Kind} {step : Step α} {frame next : Frame}
    {result : α} (done : locate pos kind step frame = .ok result next) :
    step frame = .ok result next := by
  unfold locate at done
  split at done
  next finished =>
    cases done
    exact finished
  next => cases done

theorem sweepAfter_eq (context : Context) (stmt : Node) :
    sweepAfter context stmt = reword
      (fun failure => if stmt.isPresent then failure.locate stmt.pos stmt.kind else .malformed)
      (onHeap context.rules.sweep) := by
  funext frame
  unfold sweepAfter reword
  cases onHeap context.rules.sweep frame <;> rfl

theorem sweepAfter_eq_ok {context : Context} {stmt : Node} {frame next : Frame}
    (done : sweepAfter context stmt frame = .ok () next) :
    onHeap context.rules.sweep frame = .ok () next := by
  unfold sweepAfter at done
  split at done
  next finished =>
    cases done
    exact finished
  next => cases done

end Step

namespace Tracked

theorem object_taint (heap : Heap) (pos : Int) (object : Ref) (tracked : Tracked) :
    (tracked.taint heap pos object).object = tracked.object := by
  unfold taint
  split
  · rfl
  · split <;> rfl

theorem object_returned (object : Ref) (tracked : Tracked) :
    (tracked.returned object).object = tracked.object := by
  unfold returned
  split <;> rfl

end Tracked

namespace Frame

variable (frame : Frame) (replaced : Heap)

/-- The frame with another heap. -/
def withHeap : Frame := { frame with memory := { frame.memory with heap := replaced } }

@[simp] theorem heap_withHeap : (frame.withHeap replaced).heap = replaced := rfl

@[simp] theorem tracked_withHeap : (frame.withHeap replaced).tracked = frame.tracked := rfl

@[simp] theorem sink_withHeap : (frame.withHeap replaced).sink = frame.sink := rfl

/-- All that reaches an object is marked as changed. -/
def taint (pos : Int) : Option Ref → Frame
  | none => frame
  | some object => frame.mapTracked (.taint frame.heap pos object)

@[simp] theorem memory_taint (pos : Int) (object : Option Ref) :
    (frame.taint pos object).memory = frame.memory := by
  cases object <;> rfl

@[simp] theorem heap_taint (pos : Int) (object : Option Ref) :
    (frame.taint pos object).heap = frame.heap := by
  cases object <;> rfl

@[simp] theorem sink_taint (pos : Int) (object : Option Ref) :
    (frame.taint pos object).sink = frame.sink := by
  cases object <;> rfl

@[simp] theorem captures_taint (pos : Int) (object : Option Ref) :
    (frame.taint pos object).captures = frame.captures := by
  cases object <;> rfl

/-- A field of an object does not stand for state of the caller any more. -/
def mark (owner : Ref) (name : String) : Frame :=
  { frame with written := ((frame.heap.object owner).id, name) :: frame.written }

@[simp] theorem heap_mark (owner : Ref) (name : String) :
    (frame.mark owner name).heap = frame.heap := rfl

@[simp] theorem tracked_mark (owner : Ref) (name : String) :
    (frame.mark owner name).tracked = frame.tracked := rfl

@[simp] theorem sink_mark (owner : Ref) (name : String) :
    (frame.mark owner name).sink = frame.sink := rfl

/-- A field that is free and stays so: it was assigned, or is none of the caller's. -/
def isSettled (owner : Ref) (name : String) : Bool :=
  frame.written.contains ((frame.heap.object owner).id, name) ||
    !(frame.heap.object owner).isExternal

end Frame

namespace Step

variable {context : Context} {frame : Frame} {pos : Int} {name type : String} {owner : Ref}

theorem onHeap_of_ok {α : Type} {action : Heap.Action α} {result : α} {heap : Heap}
    (done : action frame.heap = .ok result heap) :
    onHeap action frame = .ok result (frame.withHeap heap) := by
  have done : action frame.memory.heap = .ok result heap := done
  simp only [onHeap, onMemory, Memory.onHeap, done]
  rfl

theorem onHeap_of_error {α : Type} {action : Heap.Action α} {error : Heap.Error} {heap : Heap}
    (failed : action frame.heap = .error error heap) :
    (onHeap action frame : EStateM.Result Failure Frame α) =
      .error (.plain (.memory (.heap error))) (frame.withHeap heap) := by
  have failed : action frame.memory.heap = .error error heap := failed
  simp only [onHeap, onMemory, Memory.onHeap, failed]
  rfl

theorem onHeap_eq_ok {α : Type} {action : Heap.Action α} {result : α} {next : Frame}
    (done : onHeap action frame = .ok result next) :
    ∃ heap, action frame.heap = .ok result heap ∧ next = frame.withHeap heap := by
  cases finished : action frame.heap with
  | ok other heap =>
      rw [onHeap_of_ok finished] at done
      cases done
      exact ⟨heap, rfl, rfl⟩
  | error error heap =>
      rw [onHeap_of_error finished] at done
      cases done

theorem ending_onHeap {α : Type} (action : Heap.Action α) (frame : Frame) :
    ending (onHeap action frame) = frame.withHeap (ending (action frame.heap)) := by
  cases done : action frame.heap with
  | ok result heap => rw [onHeap_of_ok done]; rfl
  | error error heap => rw [onHeap_of_error done]; rfl

theorem ending_onMemory {α : Type} (action : Memory.Action α) (frame : Frame) :
    ending (onMemory action frame) = { frame with memory := ending (action frame.memory) } := by
  unfold onMemory
  cases action frame.memory <;> rfl

theorem taint_eq (pos : Int) (object : Option Ref) (frame : Frame) :
    taint pos object frame = .ok () (frame.taint pos object) := by
  cases object <;> rfl

theorem overwrite_eq (context : Context) (pos : Int) (owner : Ref) (name : String)
    (value : Option Ref) (frame : Frame) :
    overwrite context pos owner name value frame =
      onHeap (context.rules.setField (some owner) name value)
        (((frame.taint pos (some owner)).taint pos value).mark owner name) := by
  unfold overwrite
  rw [bind_of_ok (taint_eq pos (some owner) frame), bind_of_ok (taint_eq pos value _)]
  rfl

theorem construct_eq (context : Context) (pos : Int) (owner : Ref) (name : String) (value : Ref)
    (frame : Frame) :
    construct context pos owner name value frame =
      onHeap (context.rules.setField (some owner) name (some value))
        (frame.taint pos (some value)) := by
  unfold construct
  rw [bind_of_ok (taint_eq pos (some value) frame)]

theorem capture_eq (context : Context) (pos : Int) (receiver : Option Ref) (callee : UnitId)
    (param : String) (argument : Ref) (frame : Frame) :
    capture context pos receiver callee param argument frame =
      onHeap (context.rules.setField (some (receiver.getD frame.sink))
          (captureField callee param (frame.captures + 1)) (some argument))
        { (frame.taint pos (some argument)).taint pos receiver with
          captures := frame.captures + 1 } := by
  unfold capture
  rw [bind_of_ok (taint_eq pos (some argument) frame), bind_of_ok (taint_eq pos receiver _)]
  cases receiver <;> rfl

/-- The frame in which an object that is made up is put into its field. -/
def extendedFor (owner : Ref) (type name : String) (frame : Frame) : Frame :=
  (frame.mark owner name).withHeap (frame.heap.extended type true)

theorem materialize_eq (context : Context) (owner : Ref) (type name : String) (frame : Frame) :
    materialize context owner type name frame =
      (do
        onHeap (context.rules.setField (some owner) name (some frame.heap.objects.length))
        return frame.heap.objects.length) (extendedFor owner type name frame) := rfl

theorem read_of_field {occupant : Ref} (found : frame.heap.field? owner name = some occupant) :
    read context owner type name frame = .ok (some occupant) frame := by
  change (match frame.heap.field? owner name with
    | some occupant => pure (some occupant)
    | none => _ : Step (Option Ref)) frame = _
  rw [found]
  rfl

theorem read_of_settled (free : frame.heap.field? owner name = none)
    (settled : frame.isSettled owner name = true) :
    read context owner type name frame = .ok none frame := by
  change (match frame.heap.field? owner name with
    | some occupant => pure (some occupant)
    | none =>
        if frame.isSettled owner name then pure none
        else some <$> materialize context owner type name : Step (Option Ref)) frame = _
  rw [free, settled]
  rfl

theorem read_of_unsettled (free : frame.heap.field? owner name = none)
    (unsettled : frame.isSettled owner name = false) :
    read context owner type name frame =
      (some <$> materialize context owner type name : Step (Option Ref)) frame := by
  change (match frame.heap.field? owner name with
    | some occupant => pure (some occupant)
    | none =>
        if frame.isSettled owner name then pure none
        else some <$> materialize context owner type name : Step (Option Ref)) frame = _
  rw [free, unsettled]
  rfl

section Names

variable {scope : ScopeId} {binding : BindingId}

theorem lookup?_of_bound (found : frame.memory.lookup? scope name = some binding) :
    lookup? scope name frame = .ok (some (frame.memory.binding binding)) frame := by
  rw [lookup?, found]
  rfl

theorem receiver_of_bound (found : frame.memory.lookup? scope this = some binding) :
    receiver scope frame = .ok (frame.memory.binding binding).object frame := by
  rw [receiver, bind_of_ok (lookup?_of_bound found)]
  rfl

theorem first_of_bound (context : Context)
    (found : frame.memory.lookup? scope name = some binding) :
    first context scope name frame =
      .ok ((frame.memory.binding binding).object, (frame.memory.binding binding).type) frame := by
  rw [first, bind_of_ok (lookup?_of_bound found)]
  rfl

/-- A name that is bound nowhere is a field of the receiver. -/
theorem first_of_unbound (context : Context) (free : frame.memory.lookup? scope name = none)
    (found : frame.memory.lookup? scope this = some binding) :
    first context scope name frame =
      field context (frame.memory.binding binding).object context.method.owner name frame := by
  have looked : lookup? scope name frame = .ok none frame := by
    rw [lookup?, free]
    rfl
  rw [first, bind_of_ok looked]
  exact bind_of_ok (receiver_of_bound found)

end Names

end Step

end Custody.Eval
