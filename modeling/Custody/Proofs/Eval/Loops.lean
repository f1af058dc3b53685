import Custody.Proofs.Data.Ending
import Custody.Proofs.Eval.Steps

/-!
# Nodes in turn

The statements of a block, the values of a return, the arguments of a new object and the
variables of a declaration are gone through in the same way, from left to right.  A list of them
that is taken apart is gone through in two parts, and what holds of every step that is reached
holds of the whole.
-/

namespace Custody.Eval

open Code

variable {ν : Type} {one : Nat → ν → Step Unit} {all : Nat → List ν → Step Unit}

/-- Elements are gone through from left to right, with one step for each of them. -/
structure Loops (one : Nat → ν → Step Unit) (all : Nat → List ν → Step Unit) : Prop where
  nil : ∀ index, all index [] = pure ()
  cons : ∀ index first rest,
    all index (first :: rest) = one index first >>= fun _ => all (index + 1) rest

namespace Loops

theorem append (loops : Loops one all) (index : Nat) (past rest : List ν) :
    all index (past ++ rest) = all index past >>= fun _ => all (index + past.length) rest := by
  induction past generalizing index with
  | nil =>
      rw [loops.nil, pure_bind]
      rfl
  | cons first past ih =>
      rw [List.cons_append, loops.cons, loops.cons, bind_assoc, List.length_cons,
        Nat.add_comm past.length 1, ← Nat.add_assoc]
      exact bind_congr fun _ => ih (index + 1)

/-- A property that carries over from the steps of a sequence to the sequence holds of a loop
if it holds of the step for each element that is reached. -/
theorem holds (loops : Loops one all) {Holds : Step Unit → Frame → Prop}
    (idle : ∀ frame, Holds (pure ()) frame)
    (bind : ∀ {first next frame}, Holds first frame →
      (∀ result middle, first frame = .ok result middle → Holds (next result) middle) →
      Holds (first >>= next) frame)
    (index : Nat) {elements : List ν} {frame : Frame}
    (each : ∀ past element rest reached, elements = past ++ element :: rest →
      all index past frame = .ok () reached → Holds (one (index + past.length) element) reached) :
    Holds (all index elements) frame := by
  induction elements generalizing index frame with
  | nil =>
      rw [loops.nil]
      exact idle frame
  | cons first rest ih =>
      rw [loops.cons]
      refine bind (each [] first rest frame rfl (by rw [loops.nil]; rfl)) fun _ middle done => ?_
      refine ih (index + 1) fun past element others reached split before => ?_
      have here := each (first :: past) element others reached (by rw [split, List.cons_append])
        (by rw [loops.cons, bind_of_ok done]; exact before)
      rwa [List.length_cons, Nat.add_comm past.length 1, ← Nat.add_assoc] at here

variable (context : Context) (scope : ScopeId)

theorem block :
    Loops (fun _ stmt => Step.eval context scope stmt >>= fun _ => Step.sweepAfter context stmt)
      (fun _ => Step.block context scope) :=
  ⟨fun _ => by rw [Step.block], fun _ _ _ => by rw [Step.block, bind_assoc]⟩

theorem returnAll :
    Loops (fun _ node => Step.eval context scope node >>= Step.returned)
      (fun _ => Step.returnAll context scope) :=
  ⟨fun _ => by rw [Step.returnAll], fun _ _ _ => by rw [Step.returnAll, bind_assoc]⟩

theorem attach (pos : Int) (owner : Ref) :
    Loops (fun index (name, node) => Step.eval context scope node >>=
        Step.constructAny context pos owner (if name = "" then "$" ++ toString index else name))
      (Step.attach context scope pos owner) :=
  ⟨fun _ => by rw [Step.attach], fun _ _ _ => by rw [Step.attach_cons, bind_assoc]⟩

theorem declareAll (type : String) :
    Loops (fun _ (name, node) => Step.eval context scope node >>= fun value =>
        (fun _ => ()) <$> Step.onMemory (Memory.declare context.rules scope name type value))
      (fun _ => Step.declareAll context scope type) :=
  ⟨fun _ => by rw [Step.declareAll],
    fun _ _ _ => by simp only [Step.declareAll, bind_assoc, bind_map_left]⟩

end Loops

/-! ## Parts of a list of nodes -/

namespace Step

variable (context : Context) (scope : ScopeId)

theorem block_append (past rest : List Node) :
    block context scope (past ++ rest) = (do
      block context scope past
      block context scope rest) :=
  (Loops.block context scope).append 0 past rest

theorem evalAll_append (past rest : List Node) :
    evalAll context scope (past ++ rest) = (do
      let first ← evalAll context scope past
      let second ← evalAll context scope rest
      return first ++ second) := by
  induction past with
  | nil => simp [evalAll]
  | cons node past ih => simp [evalAll, ih]

theorem evalNamed_append (past rest : List (String × Node)) :
    evalNamed context scope (past ++ rest) = (do
      let first ← evalNamed context scope past
      let second ← evalNamed context scope rest
      return first ++ second) := by
  induction past with
  | nil => simp [evalNamed]
  | cons arg past ih => simp [evalNamed, ih]

theorem attach_append (pos : Int) (owner : Ref) (index : Nat) (past rest : List (String × Node)) :
    attach context scope pos owner index (past ++ rest) = (do
      attach context scope pos owner index past
      attach context scope pos owner (index + past.length) rest) :=
  (Loops.attach context scope pos owner).append index past rest

theorem declareAll_append (type : String) (past rest : List (String × Node)) :
    declareAll context scope type (past ++ rest) = (do
      declareAll context scope type past
      declareAll context scope type rest) :=
  (Loops.declareAll context scope type).append 0 past rest

theorem returnAll_append (past rest : List Node) :
    returnAll context scope (past ++ rest) = (do
      returnAll context scope past
      returnAll context scope rest) :=
  (Loops.returnAll context scope).append 0 past rest

end Step

end Custody.Eval
