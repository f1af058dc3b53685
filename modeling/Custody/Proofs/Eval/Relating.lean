import Custody.Proofs.Code.Positions
import Custody.Proofs.Eval.Guarantee
import Custody.Proofs.Eval.Steps

/-!
# What becomes of scopes and bindings

A relation of memories that does not look at the heap holds between the beginning and the
end of every step that does nothing but read, compute and store objects.  The evaluation of
an expression is such a step: it declares and assigns no variable.
-/

namespace Custody

/-- The relation goes on over several steps, whatever becomes of the heap. -/
class Memory.Overlooks (relation : Memory → Memory → Prop) : Prop where
  withHeap : ∀ memory heap, relation memory { memory with heap }
  trans : ∀ {memory middle next}, relation memory middle → relation middle next →
    relation memory next

namespace Eval

open Code

variable {α β : Type} {relation : Memory → Memory → Prop}

/-- A step leads from every memory to a related one, unless it fails. -/
def Relating (relation : Memory → Memory → Prop) (step : Step α) : Prop :=
  ∀ ⦃frame result next⦄, step frame = .ok result next → relation frame.memory next.memory

namespace Relating

theorem after {step : Step α} {frame next : Frame} {result : α}
    (done : step frame = .ok result next) (relating : Relating relation step) :
    relation frame.memory next.memory := relating done

theorem throw (failure : Failure) : Relating relation (throw failure : Step α) := by
  intro frame result next done
  cases done

theorem fail (cause : Cause) : Relating relation (Step.fail cause : Step α) :=
  throw (.plain cause)

theorem get {next : Frame → Step α} (steps : ∀ frame, Relating relation (next frame)) :
    Relating relation (MonadState.get >>= next) := by
  intro frame result last done
  exact steps frame done

theorem reword {step : Step α} (explain : Failure → Failure) (first : Relating relation step) :
    Relating relation (Step.reword explain step) := by
  intro frame result next done
  unfold Step.reword at done
  split at done
  next finished =>
    cases done
    exact first finished
  next => cases done

theorem locate {step : Step α} {pos : Int} {kind : Kind} (first : Relating relation step) :
    Relating relation (Step.locate pos kind step) :=
  first.reword fun failure => failure.locate pos kind

theorem onMemory {action : Memory.Action α}
    (related : ∀ {memory result next}, action memory = .ok result next →
      relation memory next) : Relating relation (Step.onMemory action) := by
  intro frame result next done
  obtain ⟨memory, finished, rfl⟩ := Step.onMemory_eq_ok done
  exact related finished

variable [Memory.Overlooks relation]

theorem refl (memory : Memory) : relation memory memory :=
  Memory.Overlooks.withHeap memory memory.heap

theorem pure (result : α) : Relating relation (Pure.pure result : Step α) := by
  intro frame other next done
  cases done
  exact refl _

theorem bind {step : Step α} {next : α → Step β} (first : Relating relation step)
    (second : ∀ result, Relating relation (next result)) : Relating relation (step >>= next) := by
  intro frame result last done
  obtain ⟨value, middle, started, finished⟩ := bind_eq_ok done
  exact Memory.Overlooks.trans (first started) (second value finished)

theorem map {step : Step α} (change : α → β) (first : Relating relation step) :
    Relating relation (change <$> step) := by
  rw [map_eq_pure_bind]
  exact first.bind fun result => pure (change result)

theorem ofRegistry (answer : Except Registry.Error α) :
    Relating relation (Step.ofRegistry answer) := by
  cases answer with
  | ok result => exact pure result
  | error error => exact fail _

theorem modify {change : Frame → Frame} (same : ∀ frame, (change frame).memory = frame.memory) :
    Relating relation (modify change : Step PUnit) := by
  intro frame result next done
  cases done
  rw [same]
  exact refl _

theorem onHeap (action : Heap.Action α) : Relating relation (Step.onHeap action) := by
  refine onMemory fun {memory result next} done => ?_
  unfold Memory.onHeap at done
  split at done
  next =>
    cases done
    exact Memory.Overlooks.withHeap memory _
  next => cases done

/-! ## Steps -/

theorem taint (pos : Int) (object : Option Ref) : Relating relation (Step.taint pos object) := by
  cases object with
  | none => exact pure ()
  | some object => exact modify fun _ => rfl

theorem returned (object : Option Ref) : Relating relation (Step.returned object) := by
  cases object with
  | none => exact pure ()
  | some object => exact modify fun _ => rfl

theorem skip (context : Context) (pos : Int) (construct : String) :
    Relating relation (Step.skip context pos construct) := by
  unfold Step.skip
  exact .bind (.modify fun _ => rfl) fun _ => modify fun _ => rfl

theorem markWritten (id : Nat) (name : String) : Relating relation (Step.markWritten id name) :=
  modify fun _ => rfl

variable {context : Context} {scope : ScopeId}

theorem field (owner : Option Ref) (ownerType name : String) :
    Relating relation (Step.field context owner ownerType name) := by
  rw [Step.field_eq]
  refine (ofRegistry _).bind fun type => ?_
  cases owner with
  | none => exact pure _
  | some owner =>
      refine Relating.bind (get fun frame => ?_) fun found => pure _
      split
      · exact pure _
      · split
        · exact pure _
        · refine map _ (get fun _ => ?_)
          refine (markWritten _ name).bind fun _ => (onHeap _).bind fun made => ?_
          exact (onHeap _).bind fun _ => pure made

theorem lookup? (name : String) : Relating relation (Step.lookup? scope name) := by
  intro frame result next done
  cases done
  exact refl _

theorem receiver : Relating relation (Step.receiver scope) := by
  refine (lookup? this).bind fun found => ?_
  cases found with
  | some binding => exact pure _
  | none => exact fail _

theorem first (name : String) : Relating relation (Step.first context scope name) := by
  refine (lookup? name).bind fun found => ?_
  cases found with
  | some binding => exact pure _
  | none => exact receiver.bind fun object => field object _ name

theorem follow (names : List String) (place : Option Ref × String) :
    Relating relation (Step.follow context place names) := by
  induction names generalizing place with
  | nil => exact pure place
  | cons name rest ih => exact (field place.1 place.2 name).bind ih

theorem path (qualifier : String) : Relating relation (Step.path context scope qualifier) :=
  (first _).bind (follow _)

theorem reference (target : Reference) :
    Relating relation (Step.reference context scope target) := by
  unfold Step.reference
  split
  · exact (first _).bind fun place => pure _
  · exact (path _).bind fun place => (field place.1 place.2 _).bind fun found => pure _

theorem callReceiver (qualifier : String) :
    Relating relation (Step.callReceiver context scope qualifier) := by
  unfold Step.callReceiver
  split
  · exact (first _).bind fun place => pure _
  · exact (path _).bind fun place => pure _

theorem store (pos : Int) (owner : Option Ref) (ownerType name : String) (value : Option Ref) :
    Relating relation (Step.store context pos owner ownerType name value) := by
  rw [Step.store_eq]
  refine (ofRegistry _).bind fun _ => ?_
  cases owner with
  | none => exact modify fun _ => rfl
  | some owner =>
      refine (taint pos _).bind fun _ => (taint pos value).bind fun _ => get fun frame => ?_
      exact (markWritten _ name).bind fun _ => onHeap _

theorem method (unit : UnitId) : Relating relation (Step.method context unit) := by
  refine (ofRegistry _).bind fun owner => ?_
  split
  · exact pure _
  · exact fail _

theorem requireAnalyzed (callee : Method) :
    Relating relation (Step.requireAnalyzed context callee) := by
  unfold Step.requireAnalyzed
  split
  · exact fail _
  · exact pure ()

theorem capture (pos : Int) (receiver : Option Ref) (callee : UnitId) (param : String)
    (argument : Ref) :
    Relating relation (Step.capture context pos receiver callee param argument) := by
  refine (taint pos _).bind fun _ => (taint pos receiver).bind fun _ => ?_
  exact .bind (.modify fun _ => rfl) fun _ => get fun _ => onHeap _

theorem applyArguments (pos : Int) (callee : Method) (receiver : Option Ref)
    (values : List (Option Ref)) (index : Nat) (result : Option Ref) :
    Relating relation (Step.applyArguments context pos callee receiver index values result) := by
  induction values generalizing index result with
  | nil => exact pure result
  | cons value rest ih =>
      unfold Step.applyArguments
      split
      · exact pure result
      · split
        · exact fail _
        · exact ih _ _
        · cases value with
          | none => exact ih _ _
          | some value => exact (capture pos receiver _ _ value).bind fun _ => ih _ _
        · exact ih _ _
        · exact fail _

theorem applyEffects (pos : Int) (callee : Method) (receiver : Option Ref)
    (values : List (Option Ref)) :
    Relating relation (Step.applyEffects context pos callee receiver values) := by
  refine (applyArguments pos callee receiver values 0 none).bind fun result => ?_
  split
  · exact (taint pos receiver).bind fun _ => pure _
  · exact pure _
  · exact pure _
  · exact pure _

theorem sweepAfter (stmt : Node) : Relating relation (Step.sweepAfter context stmt) := by
  rw [Step.sweepAfter_eq]
  exact (onHeap _).reword _

/-! ## Expressions -/

mutual

/-- Expressions leave scopes and bindings as they are. -/
theorem eval (context : Context) (scope : ScopeId) :
    (node : Node) → node.IsExpression → Relating relation (Step.eval context scope node)
  | .absent, _ => by
      rw [Step.eval]
      exact pure none
  | .literal pos value isNil, _ => by
      rw [Step.eval]
      split
      · exact pure none
      · exact map _ (onHeap _)
  | .reference target, _ => by
      rw [Step.eval]
      exact (reference target).locate
  | .new pos type maker args, .new each => by
      rw [Step.eval]
      refine locate ((onHeap _).bind fun made => ?_)
      split
      · exact (attach context scope pos made 0 args each).bind fun _ => pure _
      · refine (method _).bind fun callee => (requireAnalyzed callee).bind fun _ => ?_
        refine (evalNamed context scope args each).bind fun values => ?_
        exact (applyEffects pos callee _ values).bind fun _ => pure _
  | .call pos qualifier member args, .call each => by
      rw [Step.eval]
      refine locate ((ofRegistry _).bind fun type => (method _).bind fun callee => ?_)
      refine (callReceiver qualifier).bind fun receiver => (requireAnalyzed callee).bind fun _ => ?_
      refine (evalAll context scope args each).bind fun values => ?_
      refine (applyEffects pos callee receiver values).bind fun result => ?_
      cases result with
      | some result => exact pure _
      | none =>
          dsimp only
          split
          · exact pure _
          · exact map _ (onHeap _)
  | .operation pos op operands, .operation each => by
      rw [Step.eval]
      exact (evalAll context scope operands each).bind fun _ => map _ (onHeap _)
  | .unsupported pos construct, _ => by
      rw [Step.eval]
      exact (skip context pos construct).bind fun _ => pure _
  termination_by structural node => node

theorem evalAll (context : Context) (scope : ScopeId) :
    (nodes : List Node) → (∀ node ∈ nodes, node.IsExpression) →
    Relating relation (Step.evalAll context scope nodes)
  | [], _ => by
      rw [Step.evalAll]
      exact pure _
  | node :: rest, each => by
      rw [Step.evalAll]
      refine (eval context scope node (each node (.head _))).bind fun value => ?_
      exact (evalAll context scope rest fun node member => each node (.tail _ member)).bind
        fun _ => pure _
  termination_by structural nodes => nodes

theorem evalNamed (context : Context) (scope : ScopeId) :
    (args : List (String × Node)) → (∀ arg ∈ args, arg.2.IsExpression) →
    Relating relation (Step.evalNamed context scope args)
  | [], _ => by
      rw [Step.evalNamed]
      exact pure _
  | (name, node) :: rest, each => by
      rw [Step.evalNamed]
      refine (eval context scope node (each (name, node) (.head _))).bind fun value => ?_
      exact (evalNamed context scope rest fun arg member => each arg (.tail _ member)).bind
        fun _ => pure _
  termination_by structural args => args

theorem attach (context : Context) (scope : ScopeId) (pos : Int) (owner : Ref) (index : Nat) :
    (args : List (String × Node)) → (∀ arg ∈ args, arg.2.IsExpression) →
    Relating relation (Step.attach context scope pos owner index args)
  | [], _ => by
      rw [Step.attach]
      exact pure ()
  | (name, node) :: rest, each => by
      rw [Step.attach_cons]
      refine (eval context scope node (each (name, node) (.head _))).bind fun value =>
        Relating.bind ?_ fun _ => attach context scope pos owner (index + 1) rest
          fun arg member => each arg (.tail _ member)
      cases value with
      | none => exact pure ()
      | some value => exact (taint pos _).bind fun _ => onHeap _
  termination_by structural args => args

end

end Relating

end Eval

end Custody
