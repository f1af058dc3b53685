import Custody.Proofs.Eval.Hoarding
import Custody.Proofs.Heap.Renumbering

/-!
# Renumbering an evaluation

Units are evaluated one after the other, and each goes on counting identifiers
where the one before it has stopped.  What is found out about a unit does not
depend on that: evaluated from another identifier on, and with other summaries as
long as they say the same about the units it calls, it ends alike, and the objects
at the end of its body are the same ones, renumbered.
-/

namespace Custody.Memory

variable {distance : Nat} {scope : ScopeId} {binding : BindingId} {object : Option Ref}
variable {name type : String}

/-- Move all identifiers of a memory. -/
def renumber (distance : Nat) (memory : Memory) : Memory :=
  { memory with heap := memory.heap.renumber distance }

/-- The outcomes of an operation on a memory and on the renumbered one. -/
abbrev Renumbered {α : Type} (distance : Nat) (left right : EStateM.Result Error Memory α) : Prop :=
  Mirrored (renumber distance) left right

theorem renumbered_onHeap {α : Type} {action : Heap.Action α} {explain other : Heap.Error → Error}
    {memory : Memory}
    (renumbered : Heap.Renumbered distance (action memory.heap)
      (action (memory.heap.renumber distance))) :
    Renumbered distance (onHeap explain action memory)
      (onHeap other action (memory.renumber distance)) := by
  have same : (memory.renumber distance).heap = memory.heap.renumber distance := rfl
  unfold onHeap
  rw [same]
  cases done : action memory.heap with
  | ok result heap =>
      rw [renumbered.of_ok done]
      exact ⟨rfl, rfl⟩
  | error error heap =>
      obtain ⟨_, failed⟩ := renumbered.of_error done
      rw [failed]
      rfl

theorem renumbered_rebind (memory : Memory) (distance : Nat) (binding : BindingId)
    (object : Option Ref) :
    Renumbered distance (rebind .counting binding object memory)
      (rebind .counting binding object (memory.renumber distance)) := by
  have moved := Heap.renumbered_transfer memory.heap distance (memory.binding binding).object object
  cases done : Heap.Discipline.counting.transfer (memory.binding binding).object object
      memory.heap with
  | ok _ heap =>
      rw [rebind_of_ok done]
      have also : Heap.Discipline.counting.transfer
          ((memory.renumber distance).binding binding).object object
          (memory.renumber distance).heap = .ok () (heap.renumber distance) := moved.of_ok done
      rw [rebind_of_ok also]
      exact ⟨rfl, rfl⟩
  | error error heap =>
      rw [rebind_of_error done]
      obtain ⟨other, failed⟩ := moved.of_error done
      have also : Heap.Discipline.counting.transfer
          ((memory.renumber distance).binding binding).object object
          (memory.renumber distance).heap = .error other (heap.renumber distance) := failed
      rw [rebind_of_error also]
      rfl

theorem renumbered_declare (memory : Memory) (distance : Nat) (scope : ScopeId)
    (name type : String) (object : Option Ref) :
    Renumbered distance (declare .counting scope name type object memory)
      (declare .counting scope name type object (memory.renumber distance)) := by
  have scopes : (memory.renumber distance).scope scope = memory.scope scope := rfl
  have names : (memory.renumber distance).declaredIn? scope name =
      memory.declaredIn? scope name := rfl
  unfold declare
  rw [scopes, names]
  split
  · rfl
  · split
    next binding _ =>
      have rebound := renumbered_rebind (memory.retype binding type) distance binding object
      cases done : rebind .counting binding object (memory.retype binding type) with
      | ok _ next =>
          have also := rebound.of_ok done
          simp only [retype, renumber, updateBinding] at done also ⊢
          rw [done, also]
          exact ⟨rfl, rfl⟩
      | error error next =>
          obtain ⟨other, also⟩ := rebound.of_error done
          simp only [retype, renumber, updateBinding] at done also ⊢
          rw [done, also]
          rfl
    next =>
      have taken : Renumbered distance
          (onHeap (.declare name) (Heap.Discipline.counting.ref object) memory)
          (onHeap (.declare name) (Heap.Discipline.counting.ref object)
            (memory.renumber distance)) :=
        renumbered_onHeap (Heap.renumbered_ref memory.heap distance object)
      cases done : onHeap (.declare name) (Heap.Discipline.counting.ref object) memory with
      | ok _ next =>
          rw [taken.of_ok done]
          exact ⟨rfl, rfl⟩
      | error error next =>
          obtain ⟨other, also⟩ := taken.of_error done
          rw [also]
          rfl

theorem releaseAll_renumber (bindings : List BindingId) (memory : Memory) (distance : Nat) :
    (releaseAll .counting bindings (memory.renumber distance)).2 =
        (releaseAll .counting bindings memory).2.renumber distance ∧
      (releaseAll .counting bindings (memory.renumber distance)).1.isEmpty =
        (releaseAll .counting bindings memory).1.isEmpty := by
  induction bindings generalizing memory with
  | nil => exact ⟨rfl, rfl⟩
  | cons binding rest ih =>
      have dropped := Heap.renumbered_unref memory.heap distance (memory.binding binding).object
      cases done : Heap.Discipline.counting.unref (memory.binding binding).object memory.heap with
      | ok _ heap =>
          have also : Heap.Discipline.counting.unref
              ((memory.renumber distance).binding binding).object (memory.renumber distance).heap =
              .ok () (heap.renumber distance) := dropped.of_ok done
          rw [releaseAll_of_ok done, releaseAll_of_ok also]
          exact ih ({ memory with heap }.setObject binding none)
      | error error heap =>
          obtain ⟨other, failed⟩ := dropped.of_error done
          have also : Heap.Discipline.counting.unref
              ((memory.renumber distance).binding binding).object (memory.renumber distance).heap =
              .error other (heap.renumber distance) := failed
          rw [releaseAll_of_error done, releaseAll_of_error also]
          have later := ih ({ memory with heap }.setObject binding none)
          exact ⟨later.1, rfl⟩

theorem renumbered_close (memory : Memory) (distance : Nat) (scope : ScopeId) :
    Renumbered distance (close .counting scope memory)
      (close .counting scope (memory.renumber distance)) := by
  have scopes : (memory.renumber distance).scope scope = memory.scope scope := rfl
  obtain ⟨states, failures⟩ := releaseAll_renumber (memory.scope scope).declared.reverse memory
    distance
  unfold close
  rw [scopes]
  dsimp only
  split
  · exact ⟨rfl, rfl⟩
  · rw [states, failures]
    split
    · exact ⟨rfl, rfl⟩
    · rfl

end Custody.Memory

namespace Custody.Eval

open Code

variable {distance : Nat} {frame : Frame}

/-! ## Frames -/

/-- Move all identifiers of a frame. -/
def Frame.renumber (distance : Nat) (frame : Frame) : Frame :=
  { frame with
    memory := frame.memory.renumber distance
    written := frame.written.map fun (id, name) => (id + distance, name) }

namespace Frame

@[simp] theorem heap_renumber : (frame.renumber distance).heap = frame.heap.renumber distance := rfl

theorem taint_renumber (pos : Int) (object : Option Ref) :
    (frame.renumber distance).taint pos object = (frame.taint pos object).renumber distance := by
  cases object with
  | none => rfl
  | some object =>
      have same : Tracked.taint (frame.heap.renumber distance) pos object =
          Tracked.taint frame.heap pos object := by
        funext tracked
        simp only [Tracked.taint, Heap.reaches_renumber]
      simp only [Frame.taint, heap_renumber, same]
      rfl

theorem id_renumber {owner : Ref} (inside : owner < frame.heap.objects.length) :
    ((frame.renumber distance).heap.object owner).id =
      (frame.heap.object owner).id + distance := by
  rw [heap_renumber, Heap.object_renumber_of_lt inside]
  rfl

theorem mark_renumber {owner : Ref} (inside : owner < frame.heap.objects.length) (name : String) :
    (frame.renumber distance).mark owner name = (frame.mark owner name).renumber distance := by
  unfold Frame.mark
  rw [id_renumber inside]
  rfl

theorem isSettled_renumber (owner : Ref) (name : String) :
    (frame.renumber distance).isSettled owner name = frame.isSettled owner name := by
  have external : ((frame.renumber distance).heap.object owner).isExternal =
      (frame.heap.object owner).isExternal := Heap.isExternal_renumber owner
  unfold Frame.isSettled
  rw [external]
  rcases Nat.lt_or_ge owner frame.heap.objects.length with inside | outside
  · have written : (frame.renumber distance).written.contains
        ((frame.heap.object owner).id + distance, name) =
        frame.written.contains ((frame.heap.object owner).id, name) := by
      rw [Bool.eq_iff_iff, List.contains_iff_mem, List.contains_iff_mem]
      simp only [Frame.renumber, List.mem_map, Prod.exists, Prod.mk.injEq]
      constructor
      · rintro ⟨id, other, member, same, rfl⟩
        rw [← Nat.add_right_cancel same]
        exact member
      · intro member
        exact ⟨_, _, member, rfl, rfl⟩
    rw [id_renumber inside, written]
  · rw [Heap.object_of_le outside]
    simp [Object.gone, Object.fresh]

end Frame

/-! ## Steps -/

/-- Both sides fail together. -/
def renumberingFate : Fate := ⟨fun _ => True, True⟩

/-- The second frame is the first one, renumbered. -/
def Renumbered (distance : Nat) (frame other : Frame) : Prop := other = frame.renumber distance

theorem meets_renumbered_onMemory {α : Type} {action : Memory.Action α}
    (renumbered : Memory.Renumbered distance (action frame.memory)
      (action (frame.memory.renumber distance))) :
    renumberingFate.Meets (fun _ => Renumbered distance) (Step.onMemory action frame)
      (Step.onMemory action (frame.renumber distance)) := by
  have same : (frame.renumber distance).memory = frame.memory.renumber distance := rfl
  unfold Step.onMemory
  rw [same]
  cases done : action frame.memory with
  | ok result memory =>
      rw [renumbered.of_ok done]
      exact ⟨_, rfl, rfl⟩
  | error error memory =>
      obtain ⟨other, failed⟩ := renumbered.of_error done
      rw [failed]
      exact ⟨trivial, fun _ => ⟨_, _, rfl⟩⟩

theorem coupled_setField (distance : Nat) (owner : Ref) (name : String) (value : Option Ref) :
    Coupled renumberingFate (Renumbered distance) (fun _ => Renumbered distance)
      (Step.onHeap (Heap.Discipline.counting.setField (some owner) name value))
      (Step.onHeap (Heap.Discipline.counting.setField (some owner) name value)) := by
  rintro frame _ ⟨⟩
  exact meets_renumbered_onMemory (Memory.renumbered_onHeap
    (Heap.renumbered_setField frame.heap distance (some owner) name value))

/-- A field of an object outside the store cannot be set. -/
theorem exists_error_setField (frame : Frame) {owner : Ref}
    (outside : frame.heap.objects.length ≤ owner) (name : String) (value : Option Ref) :
    ∃ failure next, Step.onHeap (Heap.Discipline.counting.setField (some owner) name value) frame =
      .error failure next := by
  cases done : Heap.Discipline.counting.setField (some owner) name value frame.heap with
  | ok _ heap =>
      have inside := Heap.lt_of_not_released (Heap.not_released_of_setField done)
      exact absurd inside (Nat.not_lt.2 outside)
  | error error heap => exact ⟨_, _, Step.onHeap_of_error done⟩

section Steps

variable {registry : Registry} {summaries others : Summaries} {method : Method}

theorem meets_renumbered_overwrite (frame : Frame) (pos : Int) (owner : Ref) (name : String)
    (value : Option Ref) :
    renumberingFate.Meets (fun _ => Renumbered distance)
      (Step.overwrite (.counting registry summaries method) pos owner name value frame)
      (Step.overwrite (.counting registry others method) pos owner name value
        (frame.renumber distance)) := by
  let tainted := (frame.taint pos (some owner)).taint pos value
  have same : tainted.heap = frame.heap := by simp [tainted]
  rw [Step.overwrite_eq, Step.overwrite_eq, Frame.taint_renumber, Frame.taint_renumber]
  rcases Nat.lt_or_ge owner frame.heap.objects.length with inside | outside
  · rw [Frame.mark_renumber (by rw [same]; exact inside)]
    exact coupled_setField distance owner name value _ _ rfl
  · -- The marks differ, but there is no object to set the field of.
    rw [← same] at outside
    obtain ⟨_, _, failed⟩ := exists_error_setField (tainted.mark owner name) outside name value
    obtain ⟨_, _, also⟩ := exists_error_setField ((tainted.renumber distance).mark owner name)
      (by simpa using outside) name value
    rw [failed, also]
    exact ⟨trivial, fun _ => ⟨_, _, rfl⟩⟩

/-- The fields of external objects are made up alike. -/
theorem meets_renumbered_materialize {owner : Ref} (inside : owner < frame.heap.objects.length)
    (type name : String) :
    renumberingFate.Meets (fun _ => Renumbered distance)
      (Step.materialize (.counting registry summaries method) owner type name frame)
      (Step.materialize (.counting registry others method) owner type name
        (frame.renumber distance)) := by
  have across : Step.extendedFor owner type name (frame.renumber distance) =
      (Step.extendedFor owner type name frame).renumber distance := by
    unfold Step.extendedFor
    rw [Frame.mark_renumber inside, Frame.heap_renumber, Heap.extended_renumber]
    rfl
  rw [Step.materialize_eq, Step.materialize_eq, across, Frame.heap_renumber,
    Heap.length_objects_renumber]
  refine (coupled_setField distance owner name (some frame.heap.objects.length)).bind
    (fun _ => .pure fun _ _ agree => ?_) _ _ rfl
  exact agree

theorem coupled_read (distance : Nat) (owner : Ref) (type name : String) :
    Coupled renumberingFate (Renumbered distance) (fun _ => Renumbered distance)
      (Step.read (.counting registry summaries method) owner type name)
      (Step.read (.counting registry others method) owner type name) := by
  rintro frame _ ⟨⟩
  have same : (frame.renumber distance).heap.field? owner name = frame.heap.field? owner name :=
    Heap.field?_renumber owner name
  have settledAlike : (frame.renumber distance).isSettled owner name =
      frame.isSettled owner name := Frame.isSettled_renumber owner name
  cases found : frame.heap.field? owner name with
  | some occupant =>
      rw [Step.read_of_field found, Step.read_of_field (same.trans found)]
      exact ⟨_, rfl, rfl⟩
  | none =>
      cases settled : frame.isSettled owner name with
      | true =>
          rw [Step.read_of_settled found settled,
            Step.read_of_settled (same.trans found) (settledAlike.trans settled)]
          exact ⟨_, rfl, rfl⟩
      | false =>
          rw [Step.read_of_unsettled found settled,
            Step.read_of_unsettled (same.trans found) (settledAlike.trans settled)]
          have inside : owner < frame.heap.objects.length := by
            simp only [Frame.isSettled, Bool.or_eq_false_iff, Bool.not_eq_false'] at settled
            exact Heap.lt_of_isExternal settled.2
          exact (meets_renumbered_materialize inside type name).map fun _ _ _ agree => agree

end Steps

/-- An evaluation goes the same way from another identifier on, as long as the
summaries of the units it calls are the same. -/
def renumbering (registry : Registry) (summaries others : Summaries) (method : Method)
    (distance : Nat) : Simulation (.counting registry summaries method) .counting others where
  toFate := renumberingFate
  Agree _ := Renumbered distance
  Readable _ _ := True
  Inner _ := True
  Attaches _ := True
  Fits callee := others.of callee = summaries.of callee
  lost _ := trivial
  forget agree := agree
  lookup scope name agree := by
    cases agree
    rfl
  binding agree _ := by
    cases agree
    exact ⟨rfl, fun _ _ => trivial⟩
  note _ entry := .modify <| by
    rintro frame _ ⟨⟩
    rfl
  skip _ pos construct := by
    rintro frame _ ⟨⟩
    exact ⟨_, rfl, rfl⟩
  taint _ pos object := by
    rintro frame _ ⟨⟩
    rw [Step.taint_eq, Step.taint_eq, Frame.taint_renumber]
    exact ⟨_, rfl, rfl⟩
  returned _ object := by
    rintro frame _ ⟨⟩
    cases object with
    | none => exact ⟨_, rfl, rfl⟩
    | some object => exact ⟨_, rfl, rfl⟩
  allocate _ type := by
    rintro frame _ ⟨⟩
    exact meets_renumbered_onMemory (Memory.renumbered_onHeap
      (Heap.renumbered_allocate frame.heap distance type false))
  read _ owner type name _ := by
    refine Coupled.weaken (coupled_read distance owner type name) (fun _ _ agree => agree.1) ?_
    exact fun _ _ _ agree => ⟨agree, fun _ _ => trivial⟩
  overwrite _ pos owner name value _ := by
    rintro frame _ ⟨⟨⟩, _⟩
    exact meets_renumbered_overwrite frame pos owner name value
  numbered _ := trivial
  construct _ pos owner name value _ _ := by
    rintro frame _ ⟨⟩
    rw [Step.construct_eq, Step.construct_eq, Frame.taint_renumber]
    exact coupled_setField distance owner name (some value) _ _ rfl
  capture _ pos receiver callee param argument := by
    rintro frame _ ⟨⟩
    rw [Step.capture_eq, Step.capture_eq, Frame.taint_renumber, Frame.taint_renumber]
    exact coupled_setField distance (receiver.getD frame.sink) _ (some argument) _ _ rfl
  effects _ same := .inl same
  openChild _ scope := by
    rintro frame _ ⟨⟩
    exact ⟨_, rfl, rfl, trivial⟩
  close _ scope _ := by
    rintro frame _ ⟨⟩
    exact meets_renumbered_onMemory (Memory.renumbered_close frame.memory distance scope)
  declare _ scope name type object _ := by
    rintro frame _ ⟨⟩
    exact meets_renumbered_onMemory
      (Memory.renumbered_declare frame.memory distance scope name type object)
  rebind _ scope name binding object _ := by
    rintro frame _ ⟨⟨⟩, _⟩
    exact meets_renumbered_onMemory
      (Memory.renumbered_rebind frame.memory distance binding object)
  sweep _ := by
    rintro frame _ ⟨⟩
    exact meets_renumbered_onMemory (Memory.renumbered_onHeap
      (Heap.renumbered_sweep frame.heap distance))

/-! ## Units -/

theorem renumbered_bindParams (root : ScopeId) (params : List Param) (memory : Memory) (distance : Nat) :
    Memory.Renumbered distance (bindParams .counting root params memory)
      (bindParams .counting root params (memory.renumber distance)) := by
  induction params generalizing memory with
  | nil => exact ⟨rfl, rfl⟩
  | cons param rest ih =>
      refine .bind (Memory.renumbered_onHeap (Heap.renumbered_allocate _ distance _ _))
        fun object allocated _ => ?_
      refine .bind (Memory.renumbered_onHeap (Heap.renumbered_ref _ distance (some object)))
        fun _ raised _ => ?_
      refine .bind (Memory.renumbered_declare raised distance root param.name param.type _)
        fun _ bound _ => ?_
      exact .bind (ih bound) fun _ _ _ => ⟨rfl, rfl⟩

theorem renumbered_enter (method : Method) (lastId distance : Nat) :
    Memory.Renumbered distance (enter .counting method (.ofHeap (.startingAfter lastId)))
      (enter .counting method (.ofHeap (.startingAfter (lastId + distance)))) := by
  have opening : Memory.Renumbered distance (Memory.openRoot (.ofHeap (.startingAfter lastId)))
      (Memory.openRoot (.ofHeap (.startingAfter (lastId + distance)))) := ⟨rfl, rfl⟩
  refine .bind opening fun root opened _ => ?_
  refine .bind (Memory.renumbered_onHeap (Heap.renumbered_allocate _ distance _ _))
    fun receiver allocated _ => ?_
  refine .bind (Memory.renumbered_declare allocated distance root this method.owner _)
    fun _ bound _ => ?_
  refine .bind (Memory.renumbered_onHeap (Heap.renumbered_allocate _ distance _ _))
    fun sink extended _ => ?_
  refine .bind (Memory.renumbered_onHeap (Heap.renumbered_ref _ distance (some sink)))
    fun _ held _ => ?_
  exact .bind (renumbered_bindParams root method.params held distance) fun _ _ _ => ⟨rfl, rfl⟩

theorem runAll_renumber {actions : List (Memory.Action Unit)}
    (renumbered : ∀ action ∈ actions, ∀ memory, Memory.Renumbered distance (action memory)
      (action (memory.renumber distance))) (memory : Memory) :
    (runAll actions (memory.renumber distance)).2 = (runAll actions memory).2.renumber distance ∧
      (runAll actions (memory.renumber distance)).1.isEmpty = (runAll actions memory).1.isEmpty := by
  induction actions generalizing memory with
  | nil => exact ⟨rfl, rfl⟩
  | cons action rest ih =>
      have first := renumbered action (.head _) memory
      have later := ih fun action member => renumbered action (.tail _ member)
      unfold runAll
      cases done : action memory with
      | ok _ next =>
          rw [first.of_ok done]
          exact later next
      | error error next =>
          obtain ⟨other, failed⟩ := first.of_error done
          rw [failed]
          exact ⟨(later next).1, rfl⟩

/-- A unit is left alike. -/
theorem leave_renumber (registry : Registry) (summaries others : Summaries) (method : Method)
    (root inner : ScopeId) (frame : Frame) (distance : Nat) :
    (∃ last other, leave (.counting registry summaries method) root inner frame = .ok () last ∧
        leave (.counting registry others method) root inner (frame.renumber distance) =
          .ok () other) ∨
      ∃ failure last reason other,
        leave (.counting registry summaries method) root inner frame = .error failure last ∧
        leave (.counting registry others method) root inner (frame.renumber distance) =
          .error reason other := by
  have same : drops (.counting registry others method) root inner (frame.renumber distance) =
      drops (.counting registry summaries method) root inner frame := rfl
  have dropped : ∀ action ∈ drops (.counting registry summaries method) root inner frame,
      ∀ memory, Memory.Renumbered distance (action memory) (action (memory.renumber distance)) := by
    intro action member memory
    simp only [drops, List.mem_append, List.mem_cons, List.mem_map, List.not_mem_nil,
      or_false] at member
    rcases member with ((rfl | rfl) | ⟨param, _, rfl⟩) | rfl | rfl
    · exact Memory.renumbered_close memory distance inner
    · exact Memory.renumbered_close memory distance root
    · exact Memory.renumbered_onHeap
        (Heap.renumbered_unref memory.heap distance (some param.object))
    · exact Memory.renumbered_onHeap (Heap.renumbered_unref memory.heap distance (some frame.sink))
    · exact Memory.renumbered_onHeap (Heap.renumbered_sweep memory.heap distance)
  have alike := (runAll_renumber dropped frame.memory).2
  cases quiet : (runAll (drops (.counting registry summaries method) root inner frame)
      frame.memory).1.isEmpty with
  | true => exact .inl ⟨_, _, if_pos quiet, if_pos (alike.trans quiet)⟩
  | false =>
      refine .inr ⟨_, _, _, _, if_neg ?_, if_neg ?_⟩
      · rw [Bool.not_eq_true]
        exact quiet
      · rw [Bool.not_eq_true]
        exact alike.trans quiet

/-- Move the identifiers of all objects in a result. -/
def Result.renumber (distance : Nat) (result : Result) : Result :=
  { result with heap := result.heap.map (.renumber distance) }

theorem result_renumber (indexed : frame.heap.Indexed) (distance : Nat) :
    (frame.renumber distance).result = frame.result.renumber distance := by
  have heap : (frame.renumber distance).heap.snapshot =
      frame.heap.snapshot.map (.renumber distance) := Heap.snapshot_renumber indexed
  unfold Frame.result Result.renumber
  rw [heap]
  rfl

theorem indexed_of_body {registry : Registry} {summaries : Summaries} {method : Method}
    {lastId : Nat} {entry : Entry} {memory : Memory} {inner : ScopeId}
    (entered : enter .counting method (.ofHeap (.startingAfter lastId)) = .ok entry memory)
    (finished : body (.counting registry summaries method) entry.root (entry.frame memory) =
      .ok inner frame) : frame.heap.Indexed := by
  obtain ⟨_, _, _, _, hoards⟩ := exists_body_hoarding entered finished
  exact hoards.hoarded.indexed

/-- Two evaluations have the same result but for a distance between identifiers, or
both have none. -/
inductive Alike (distance : Nat) : Except Failure Result → Except Failure Result → Prop
  | result (found : Result) : Alike distance (.ok found) (.ok (found.renumber distance))
  | failure (left right : Failure) : Alike distance (.error left) (.error right)

section Runs

variable {registry : Registry} {summaries others : Summaries} {method : Method} {lastId : Nat}
variable {entry : Entry} {memory : Memory}

/-- The body of a unit that has been entered is evaluated alike. -/
theorem evaluate_alike
    (concordant : Simulation.Concordant (.counting registry summaries method) others
      method.decl.nodes)
    (entered : enter .counting method (.ofHeap (.startingAfter lastId)) = .ok entry memory)
    (distance : Nat) :
    (∃ found last other,
        evaluate (.counting registry summaries method) entry.root (entry.frame memory) =
          .ok found last ∧
        evaluate (.counting registry others method) entry.root
          (entry.frame (memory.renumber distance)) = .ok (found.renumber distance) other) ∨
      ∃ failure last reason other,
        evaluate (.counting registry summaries method) entry.root (entry.frame memory) =
          .error failure last ∧
        evaluate (.counting registry others method) entry.root
          (entry.frame (memory.renumber distance)) = .error reason other := by
  have ran := (renumbering registry summaries others method distance).body entry.root
    (concordant.suits (fun _ same => same) fun _ => trivial)
    (entry.frame memory) (entry.frame (memory.renumber distance)) rfl
  cases finished : body (.counting registry summaries method) entry.root (entry.frame memory) with
  | error failure last =>
      rw [finished] at ran
      obtain ⟨reason, other, failed⟩ := ran.2 trivial
      exact .inr ⟨failure, last, reason, other, bind_of_error finished, bind_of_error failed⟩
  | ok inner last =>
      rw [finished] at ran
      obtain ⟨_, followed, rfl⟩ := ran
      rcases leave_renumber registry summaries others method entry.root inner last distance with
        ⟨_, other, left, right⟩ | ⟨_, _, _, _, left, right⟩
      · refine .inl ⟨_, _, other, evaluate_of_ok finished left, ?_⟩
        rw [← result_renumber (indexed_of_body entered finished) distance]
        exact evaluate_of_ok followed right
      · exact .inr ⟨_, _, _, _, evaluate_of_error finished left, evaluate_of_error followed right⟩

/-- A unit is evaluated alike from any identifier on, with any summaries that say the
same about the units that it calls. -/
theorem run_alike
    (concordant : Simulation.Concordant (.counting registry summaries method) others
      method.decl.nodes) (lastId distance : Nat) :
    Alike distance (run (.counting registry summaries method) lastId).result
      (run (.counting registry others method) (lastId + distance)).result := by
  unfold run
  cases known : registry.lookup method.owner with
  | error error => exact .failure _ _
  | ok owner =>
      have entering := renumbered_enter method lastId distance
      cases entered : enter .counting method (.ofHeap (.startingAfter lastId)) with
      | error error memory =>
          obtain ⟨other, failed⟩ := entering.of_error entered
          simp only [failed]
          exact .failure _ _
      | ok entry memory =>
          simp only [entering.of_ok entered]
          rcases evaluate_alike concordant entered distance with
            ⟨_, _, _, left, right⟩ | ⟨_, _, _, _, left, right⟩
          · rw [left, right]
            exact .result _
          · rw [left, right]
            exact .failure _ _

/-- A unit that has a result has one from any identifier on, with the same effects. -/
theorem exists_result_from {result : Result}
    (done : (run (.counting registry summaries method) lastId).result = .ok result) (start : Nat) :
    ∃ found, (run (.counting registry summaries method) start).result = .ok found ∧
      found.effects = result.effects ∧ found.receiver = result.receiver ∧
      found.skipped = result.skipped := by
  have concordant : Simulation.Concordant (.counting registry summaries method) summaries
      method.decl.nodes := fun _ _ _ _ _ _ => rfl
  rcases Nat.le_total lastId start with later | earlier
  · obtain ⟨distance, rfl⟩ := Nat.exists_eq_add_of_le later
    have alike := run_alike concordant lastId distance
    rw [done] at alike
    generalize (run (.counting registry summaries method) (lastId + distance)).result = moved
      at alike ⊢
    cases alike
    exact ⟨_, rfl, rfl, rfl, rfl⟩
  · obtain ⟨distance, rfl⟩ := Nat.exists_eq_add_of_le earlier
    have alike := run_alike concordant start distance
    rw [done] at alike
    generalize (run (.counting registry summaries method) start).result = moved at alike ⊢
    cases alike
    exact ⟨_, rfl, rfl, rfl, rfl⟩

end Runs

end Custody.Eval
