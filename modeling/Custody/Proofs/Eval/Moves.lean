import Custody.Eval.Unit
import Custody.Proofs.Eval.Steps
import Custody.Proofs.Heap.Seclusion
import Custody.Proofs.Memory.Ownership
import Mathlib.Data.List.Forall2
import Mathlib.Data.List.Induction

/-!
# Moves

An evaluation is a sequence of moves: every step of it that touches the frame is
one of a few, and what it does next depends on nothing but the node, the answers
of the registry and the summaries.  A trail is a list of moves each of which is
allowed in the frame where it is made.
-/

namespace Custody.Eval

/-- What an evaluation can do to its frame. -/
inductive Move where
  /-- Allocate a temporary. -/
  | allocate (type : String)
  /-- Make up the object in a field that stands for state of the caller. -/
  | materialize (owner : Ref) (type name : String)
  /-- Assign a field. -/
  | store (pos : Int) (owner : Ref) (name : String) (value : Option Ref)
  /-- Attach an argument to a new object. -/
  | construct (pos : Int) (owner : Ref) (name : String) (value : Ref)
  /-- Let the receiver of a call, or the sink, hold an argument. -/
  | capture (pos : Int) (receiver : Option Ref) (callee : UnitId) (param : String) (argument : Ref)
  /-- Mark what reaches an object as changed. -/
  | taint (pos : Int) (object : Option Ref)
  /-- Mark an object as returned. -/
  | returned (object : Option Ref)
  | openScope (parent : ScopeId)
  | close (scope : ScopeId)
  | declare (scope : ScopeId) (name type : String) (object : Option Ref)
  | rebind (binding : BindingId) (object : Option Ref)
  | sweep
  /-- Drop a reference that the caller or the frame held. -/
  | drop (object : Ref)
  | skip (pos : Int) (construct : String)
  | note (entry : LogEntry)

namespace Move

/-- The step that a move is. -/
def step (context : Context) : Move → Step Unit
  | allocate type => discard (Step.onHeap (Heap.allocate type false))
  | materialize owner type name => discard (Step.materialize context owner type name)
  | store pos owner name value => Step.overwrite context pos owner name value
  | construct pos owner name value => Step.construct context pos owner name value
  | capture pos receiver callee param argument =>
      Step.capture context pos receiver callee param argument
  | taint pos object => Step.taint pos object
  | returned object => Step.returned object
  | openScope parent => discard (Step.onMemory (Memory.openChild parent))
  | close scope => Step.onMemory (Memory.close context.rules scope)
  | declare scope name type object =>
      discard (Step.onMemory (Memory.declare context.rules scope name type object))
  | rebind binding object => Step.onMemory (Memory.rebind context.rules binding object)
  | sweep => Step.onHeap context.rules.sweep
  | drop object => Step.onHeap (context.rules.unref (some object))
  | skip pos name => Step.skip context pos name
  | note entry => Step.note entry

/-- The frame after several moves. -/
def perform (context : Context) (frame : Frame) (moves : List Move) : Frame :=
  moves.foldl (fun frame move => ending (move.step context frame)) frame

/-- Arguments are attached to new objects only, and only fields of the caller's
objects that are free are made up. -/
def Allowed (frame : Frame) : Move → Prop
  | construct _ owner _ _ => (frame.heap.object owner).isExternal = false
  | materialize owner _ name =>
      (frame.heap.object owner).isExternal = true ∧ frame.heap.field? owner name = none
  | _ => True

/-- Moves each of which is allowed where it is made. -/
def Trail (context : Context) (frame : Frame) (moves : List Move) : Prop :=
  ∀ past move, past ++ [move] <+: moves → move.Allowed (perform context frame past)

theorem perform_append (context : Context) (frame : Frame) (past moves : List Move) :
    perform context frame (past ++ moves) = perform context (perform context frame past) moves :=
  List.foldl_append

theorem perform_singleton (context : Context) (frame : Frame) (move : Move) :
    perform context frame [move] = ending (move.step context frame) := rfl

theorem Trail.nil (context : Context) (frame : Frame) : Trail context frame [] := by
  intro past move within
  simpa using List.prefix_nil.1 within

theorem Trail.concat {context : Context} {frame : Frame} {moves : List Move} {move : Move}
    (trail : Trail context frame moves) (allowed : move.Allowed (perform context frame moves)) :
    Trail context frame (moves ++ [move]) := by
  intro past other within
  rcases List.prefix_concat_iff.1 within with same | before
  · obtain ⟨rfl, last⟩ := List.append_inj' same rfl
    cases last
    exact allowed
  · exact trail past other before

theorem Trail.append {context : Context} {frame : Frame} {past moves : List Move}
    (first : Trail context frame past) (rest : Trail context (perform context frame past) moves) :
    Trail context frame (past ++ moves) := by
  induction moves using List.reverseRecOn with
  | nil => simpa using first
  | append_singleton moves move ih =>
      have before : Trail context (perform context frame past) moves :=
        fun earlier other within => rest earlier other (within.trans (List.prefix_append _ _))
      rw [← List.append_assoc]
      refine (ih before).concat ?_
      rw [perform_append]
      exact rest moves move (List.prefix_refl _)

/-- The rest of a trail is a trail from where its beginning leads. -/
theorem Trail.suffix {context : Context} {frame : Frame} {past moves : List Move}
    (trail : Trail context frame (past ++ moves)) :
    Trail context (perform context frame past) moves := by
  intro earlier move within
  rw [← perform_append]
  refine trail (past ++ earlier) move ?_
  rw [List.append_assoc]
  exact (List.prefix_append_right_inj past).2 within

/-- Moves that are allowed anywhere make a trail. -/
theorem Trail.of_forall {context : Context} {frame : Frame} {moves : List Move}
    (allowed : ∀ move ∈ moves, ∀ frame, move.Allowed frame) : Trail context frame moves :=
  fun _ move within => allowed move (within.subset (by simp)) _

end Move

end Custody.Eval

namespace Custody.Heap

/-- Objects stay in the store, and stay what they are for the caller. -/
structure Persists (before after : Heap) : Prop where
  length : before.objects.length ≤ after.objects.length
  isExternal : ∀ ref < before.objects.length,
    (after.object ref).isExternal = (before.object ref).isExternal

namespace Persists

variable {heap next last : Heap}

theorem refl (heap : Heap) : heap.Persists heap := ⟨Nat.le_refl _, fun _ _ => rfl⟩

theorem trans (one : heap.Persists next) (two : next.Persists last) : heap.Persists last where
  length := Nat.le_trans one.length two.length
  isExternal ref inside :=
    (two.isExternal ref (Nat.lt_of_lt_of_le inside one.length)).trans (one.isExternal ref inside)

theorem thins (thins : heap.Thins next) : heap.Persists next :=
  ⟨Nat.le_of_eq thins.length.symm, fun ref _ => (thins.object ref).isExternal⟩

theorem extended (heap : Heap) (type : String) (isExternal : Bool) :
    heap.Persists (heap.extended type isExternal) where
  length := by
    rw [length_objects_extended]
    exact Nat.le_succ _
  isExternal ref inside := by rw [object_extended, if_neg (Nat.ne_of_lt inside)]

theorem setField (heap : Heap) (owner : Option Ref) (name : String) (value : Option Ref) :
    heap.Persists (ending (Heap.setField owner name value heap)) := by
  rcases setField_thins heap owner name value with kept | ⟨owner, _, _, _, assigned⟩
  · exact .thins kept
  · refine .trans ⟨?_, fun ref _ => isExternal_assign heap owner name value ref⟩ (.thins assigned)
    exact Nat.le_of_eq length_objects_update.symm

end Persists

end Custody.Heap

namespace Custody.Eval

variable {registry : Registry} {summaries : Summaries} {method : Method}

namespace Move

/-- A move that leaves the objects alone but for counting and releasing. -/
def isIdle : Move → Bool
  | allocate .. | materialize .. | store .. | construct .. | capture .. => false
  | _ => true

theorem decays_of_isIdle {move : Move} (idle : move.isIdle = true) (frame : Frame) :
    frame.heap.Decays (ending (move.step (.counting registry summaries method) frame)).heap := by
  have stable := Heap.Decays.stable frame.heap
  have start := Heap.Decays.refl frame.heap
  cases move with
  | allocate type => cases idle
  | materialize owner type name => cases idle
  | store pos owner name value => cases idle
  | construct pos owner name value => cases idle
  | capture pos receiver callee param argument => cases idle
  | taint pos object =>
      rw [step, Step.taint_eq, ending_ok, Frame.heap_taint]
      exact start
  | returned object => cases object <;> exact start
  | openScope parent => exact start
  | close scope =>
      rw [step, Step.ending_onMemory]
      exact Memory.stable_close stable start scope
  | declare scope name type object =>
      rw [step, ending_discard, Step.ending_onMemory]
      exact Memory.stable_declare stable start scope name type object
  | rebind binding object =>
      rw [step, Step.ending_onMemory]
      exact Memory.stable_rebind stable start binding object
  | sweep =>
      rw [step, Step.ending_onHeap]
      exact stable.sweep start
  | drop object =>
      rw [step, Step.ending_onHeap]
      exact stable.unref (some object) start
  | skip pos construct => exact start
  | note entry => exact start

/-! ### What the other moves leave behind -/

theorem ending_store (pos : Int) (owner : Ref) (name : String) (value : Option Ref)
    (frame : Frame) :
    ending ((store pos owner name value).step (.counting registry summaries method) frame) =
      (((frame.taint pos (some owner)).taint pos value).mark owner name).withHeap
        (ending (Heap.setField (some owner) name value frame.heap)) := by
  rw [step, Step.overwrite_eq, Step.ending_onHeap, Frame.heap_mark, Frame.heap_taint,
    Frame.heap_taint]
  rfl

theorem ending_construct (pos : Int) (owner : Ref) (name : String) (value : Ref) (frame : Frame) :
    ending ((construct pos owner name value).step (.counting registry summaries method) frame) =
      (frame.taint pos (some value)).withHeap
        (ending (Heap.setField (some owner) name (some value) frame.heap)) := by
  rw [step, Step.construct_eq, Step.ending_onHeap, Frame.heap_taint]
  rfl

theorem ending_capture (pos : Int) (receiver : Option Ref) (callee : UnitId) (param : String)
    (argument : Ref) (frame : Frame) :
    ending ((capture pos receiver callee param argument).step
        (.counting registry summaries method) frame) =
      Frame.withHeap
        { (frame.taint pos (some argument)).taint pos receiver with
          captures := frame.captures + 1 }
        (ending (Heap.setField (some (receiver.getD frame.sink))
          (Step.captureField callee param (frame.captures + 1)) (some argument) frame.heap)) := by
  have same : ({ (frame.taint pos (some argument)).taint pos receiver with
      captures := frame.captures + 1 } : Frame).heap = frame.heap := by
    cases receiver <;> rfl
  rw [step, Step.capture_eq, Step.ending_onHeap, same]
  rfl

theorem ending_materialize (owner : Ref) (type name : String) (frame : Frame) :
    ending ((materialize owner type name).step (.counting registry summaries method) frame) =
      (frame.mark owner name).withHeap (ending (Heap.setField (some owner) name
        (some frame.heap.objects.length) (frame.heap.extended type true))) := by
  rw [step, ending_discard, Step.materialize_eq]
  cases done : Heap.setField (some owner) name (some frame.heap.objects.length)
      (frame.heap.extended type true) with
  | ok result heap =>
      rw [bind_of_ok (Step.onHeap_of_ok done)]
      rfl
  | error error heap =>
      rw [bind_of_error (Step.onHeap_of_error done)]
      rfl

theorem persists (move : Move) (frame : Frame) :
    frame.heap.Persists (ending (move.step (.counting registry summaries method) frame)).heap := by
  cases move with
  | allocate type => exact .extended frame.heap type false
  | materialize owner type name =>
      rw [ending_materialize]
      exact .trans (.extended frame.heap type true) (.setField _ _ _ _)
  | store pos owner name value =>
      rw [ending_store]
      exact .setField _ _ _ _
  | construct pos owner name value =>
      rw [ending_construct]
      exact .setField _ _ _ _
  | capture pos receiver callee param argument =>
      rw [ending_capture]
      exact .setField _ _ _ _
  | _ => exact .thins (decays_of_isIdle rfl frame).thins

end Move

/-! ## Where trails lead -/

open Move

/-- Some trail from the start leads to the frame. -/
def Reached (context : Context) (start frame : Frame) : Prop :=
  ∃ moves, Trail context start moves ∧ perform context start moves = frame

namespace Reached

theorem trans {context : Context} {first middle last : Frame}
    (one : Reached context first middle) (two : Reached context middle last) :
    Reached context first last := by
  obtain ⟨past, earlier, rfl⟩ := one
  obtain ⟨moves, later, rfl⟩ := two
  exact ⟨past ++ moves, earlier.append later, perform_append context first past moves⟩

theorem persists {start frame : Frame}
    (reached : Reached (.counting registry summaries method) start frame) :
    start.heap.Persists frame.heap := by
  obtain ⟨moves, trail, rfl⟩ := reached
  clear trail
  induction moves using List.reverseRecOn with
  | nil => exact .refl _
  | append_singleton moves move ih =>
      rw [perform_append, perform_singleton]
      exact ih.trans (move.persists _)

end Reached

/-- The temporaries are new objects of the unit. -/
def InHand (temporaries : List Ref) (frame : Frame) : Prop :=
  ∀ ref ∈ temporaries,
    ref < frame.heap.objects.length ∧ (frame.heap.object ref).isExternal = false

theorem InHand.reached {temporaries : List Ref} {frame next : Frame}
    (inHand : InHand temporaries frame)
    (reached : Reached (.counting registry summaries method) frame next) :
    InHand temporaries next := by
  intro ref member
  obtain ⟨inside, own⟩ := inHand ref member
  exact ⟨Nat.lt_of_lt_of_le inside reached.persists.length,
    (reached.persists.isExternal ref inside).trans own⟩

/-! ## Units -/

theorem runAll_cons_snd (action : Memory.Action Unit) (rest : List (Memory.Action Unit))
    (memory : Memory) :
    (runAll (action :: rest) memory).2 = (runAll rest (ending (action memory))).2 := by
  rw [runAll]
  cases done : action memory <;> rfl

/-- Moves that are operations on the memory do what the operations do. -/
theorem perform_eq_runAll {context : Context} {moves : List Move}
    {actions : List (Memory.Action Unit)}
    (same : List.Forall₂ (fun move action => ∀ frame, ending (move.step context frame) =
      { frame with memory := ending (action frame.memory) }) moves actions) (frame : Frame) :
    perform context frame moves = { frame with memory := (runAll actions frame.memory).2 } := by
  induction same generalizing frame with
  | nil => rfl
  | cons first rest ih =>
      rw [runAll_cons_snd]
      change perform context (ending (Move.step context _ frame)) _ = _
      rw [first, ih]

/-- The operations by which a unit drops its references. -/
def drops (context : Context) (root inner : ScopeId) (frame : Frame) : List (Memory.Action Unit) :=
  [Memory.close context.rules inner, Memory.close context.rules root] ++
    frame.params.map (fun param => Memory.onHeap .heap (context.rules.unref (some param.object))) ++
    [Memory.onHeap .heap (context.rules.unref (some frame.sink)),
      Memory.onHeap .heap context.rules.sweep]

/-- The moves that these operations are. -/
def dropMoves (root inner : ScopeId) (frame : Frame) : List Move :=
  [.close inner, .close root] ++ frame.params.map (fun param => .drop param.object) ++
    [.drop frame.sink, .sweep]

theorem perform_dropMoves (context : Context) (root inner : ScopeId) (frame : Frame) :
    perform context frame (dropMoves root inner frame) =
      { frame with memory := (runAll (drops context root inner frame) frame.memory).2 } := by
  refine perform_eq_runAll ?_ frame
  refine List.rel_append (List.rel_append ?_ ?_) ?_
  · exact .cons (fun _ => Step.ending_onMemory _ _) (.cons (fun _ => Step.ending_onMemory _ _) .nil)
  · rw [List.forall₂_map_left_iff, List.forall₂_map_right_iff]
    exact List.forall₂_same.2 fun param _ _ => Step.ending_onMemory _ _
  · exact .cons (fun _ => Step.ending_onMemory _ _) (.cons (fun _ => Step.ending_onMemory _ _) .nil)

/-- Objects that are still live are noted in the log. -/
def noteLive (context : Context) (frame : Frame) : List Move :=
  if frame.heap.size = 0 then [] else [.note (.objectsLeft context.method.unit frame.heap.size)]

theorem perform_noteLive (context : Context) (frame : Frame) :
    perform context frame (noteLive context frame) =
      { frame with
        log := if frame.heap.size = 0 then frame.log
          else frame.log ++ [.objectsLeft context.method.unit frame.heap.size] } := by
  unfold noteLive
  split <;> rfl

/-- The moves by which a unit is left. -/
def leaveMoves (context : Context) (root inner : ScopeId) (frame : Frame) : List Move :=
  dropMoves root inner frame ++ noteLive context (perform context frame (dropMoves root inner frame))

theorem trail_leaveMoves (context : Context) (root inner : ScopeId) (frame : Frame) :
    Trail context frame (leaveMoves context root inner frame) := by
  refine Trail.append (.of_forall fun move member other => ?_) ?_
  · simp only [dropMoves, List.mem_append, List.mem_cons, List.mem_map, List.not_mem_nil,
      or_false] at member
    rcases member with ((rfl | rfl) | ⟨_, _, rfl⟩) | rfl | rfl <;> trivial
  · unfold noteLive
    split
    · exact .nil _ _
    · exact (Trail.nil _ _).concat trivial

theorem perform_leaveMoves (context : Context) (root inner : ScopeId) (frame : Frame) :
    perform context frame (leaveMoves context root inner frame) =
      ending (leave context root inner frame) := by
  have ends : ending (leave context root inner frame) =
      let memory := (runAll (drops context root inner frame) frame.memory).2
      { frame with
        memory
        log := if memory.heap.size = 0 then frame.log
          else frame.log ++ [.objectsLeft context.method.unit memory.heap.size] } := by
    unfold leave
    dsimp only
    split <;> rfl
  rw [ends, leaveMoves, perform_append, perform_dropMoves, perform_noteLive]
  rfl

end Custody.Eval
