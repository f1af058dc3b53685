import Custody.Proofs.Eval.Relating
import Custody.Proofs.Memory.Growth

/-!
# What stays bound

No step of an evaluation unbinds what was bound when it began, and none binds a name
under a type but those that the nodes evaluated declare: every step is `Advancing`.
-/

namespace Custody.Eval

open Code

variable {env : Environment}

instance (env : Environment) : Memory.Overlooks (Memory.Advances env) where
  withHeap := .withHeap
  trans := .trans

/-- A step leaves bound what is bound, and binds no name but some with their types. -/
abbrev Advancing {α : Type} (env : Environment) (step : Step α) : Prop :=
  Relating (Memory.Advances env) step

namespace Advancing

open Relating

variable {context : Context} {scope : ScopeId}

theorem assign (pos : Int) (target : Reference) (value : Option Ref) :
    Advancing env (Step.assign context scope pos target value) := by
  unfold Step.assign
  split
  · exact (path _).bind fun place => store pos place.1 place.2 _ value
  · split
    · exact skip context pos _
    · refine get fun frame => ?_
      split
      · exact onMemory fun done => .rebind done
      · exact receiver.bind fun object => store pos object _ _ value

theorem openChild (parent : ScopeId) : Advancing env (Step.onMemory (Memory.openChild parent)) :=
  onMemory fun done => by
    cases done
    exact .openScope _ _

/-- A scope that is opened and closed again is gone. -/
theorem inside {parent : ScopeId} {pos : Int} {within : ScopeId → Step Unit}
    (advancing : ∀ child, Advancing env (within child)) :
    Advancing env (do
      let child ← Step.onMemory (Memory.openChild parent)
      within child
      Step.locate pos .block (Step.onMemory (Memory.close context.rules child))
      return (none : Option Ref)) := by
  intro frame result last done
  obtain ⟨child, opened, opens, rest⟩ := bind_eq_ok done
  obtain ⟨_, reached, evaluated, rest⟩ := bind_eq_ok rest
  obtain ⟨_, closed, closes, finished⟩ := bind_eq_ok rest
  cases finished
  have before := (openChild parent opens).trans (advancing child evaluated)
  cases opens
  obtain ⟨memory, shut, rfl⟩ := Step.onMemory_eq_ok (Step.locate_eq_ok closes)
  exact before.close (Nat.le_refl _) shut

mutual

/-- The evaluation of a node binds no names but those declared in it. -/
theorem eval (context : Context) (scope : ScopeId) :
    (node : Node) → node.preorder.flatMap Node.declared ⊆ env →
    Advancing env (Step.eval context scope node)
  | .absent, _ => by
      rw [Step.eval]
      exact pure none
  | .vacant, _ => by
      rw [Step.eval]
      exact throw _
  | .block pos stmts, within => by
      rw [Step.eval]
      exact inside fun child => block context child stmts within
  | .literal pos value isNil, _ => by
      rw [Step.eval]
      split
      · exact pure none
      · exact map _ (onHeap _)
  | .reference target, _ => by
      rw [Step.eval]
      exact (reference target).locate
  | .new pos type maker args, within => by
      rw [Step.eval]
      refine locate ((onHeap _).bind fun made => ?_)
      split
      · exact (attach context scope pos made 0 args within).bind fun _ => pure _
      · refine (method _).bind fun callee => (requireAnalyzed callee).bind fun _ => ?_
        refine (evalNamed context scope args within).bind fun values => ?_
        exact (applyEffects pos callee _ values).bind fun _ => pure _
  | .localVar pos type declarators, within => by
      rw [Step.eval]
      rw [Node.preorder, List.flatMap_cons, List.append_subset] at within
      refine locate ((declareAll context scope type declarators ?_ within.2).bind fun _ => pure _)
      intro declarator member
      exact within.1 (List.mem_map.2 ⟨declarator, member, rfl⟩)
  | .assign pos target value, within => by
      rw [Step.eval]
      rw [Node.preorder, List.flatMap_cons, List.flatMap_append, List.append_subset,
        List.append_subset] at within
      refine locate ((eval context scope value within.2.2).bind fun value => ?_)
      cases target with
      | none => exact throw _
      | some target => exact (assign pos target value).bind fun _ => pure _
  | .ret pos values, within => by
      rw [Step.eval]
      exact (returnAll context scope values within).bind fun _ => pure _
  | .call pos qualifier member args, within => by
      rw [Step.eval]
      refine locate ((ofRegistry _).bind fun type => (method _).bind fun callee => ?_)
      refine (callReceiver qualifier).bind fun receiver => (requireAnalyzed callee).bind fun _ => ?_
      refine (evalAll context scope args within).bind fun values => ?_
      refine (applyEffects pos callee receiver values).bind fun result => ?_
      cases result with
      | some result => exact pure _
      | none =>
          dsimp only
          split
          · exact pure _
          · exact map _ (onHeap _)
  | .operation pos op operands, within => by
      rw [Step.eval]
      exact (evalAll context scope operands within).bind fun _ => map _ (onHeap _)
  | .unsupported pos construct, _ => by
      rw [Step.eval]
      exact (skip context pos construct).bind fun _ => pure _
  | .alien pos kind, _ => by
      rw [Step.eval]
      exact (skip context pos _).bind fun _ => pure _
  termination_by structural node => node

theorem block (context : Context) (scope : ScopeId) :
    (stmts : List Node) → (Node.preorderAll stmts).flatMap Node.declared ⊆ env →
    Advancing env (Step.block context scope stmts)
  | [], _ => by
      rw [Step.block]
      exact pure ()
  | stmt :: rest, within => by
      rw [Step.block]
      rw [Node.preorderAll, List.flatMap_append, List.append_subset] at within
      refine (eval context scope stmt within.1).bind fun _ => (sweepAfter stmt).bind fun _ => ?_
      exact block context scope rest within.2
  termination_by structural stmts => stmts

theorem evalAll (context : Context) (scope : ScopeId) :
    (nodes : List Node) → (Node.preorderAll nodes).flatMap Node.declared ⊆ env →
    Advancing env (Step.evalAll context scope nodes)
  | [], _ => by
      rw [Step.evalAll]
      exact pure _
  | node :: rest, within => by
      rw [Step.evalAll]
      rw [Node.preorderAll, List.flatMap_append, List.append_subset] at within
      refine (eval context scope node within.1).bind fun value => ?_
      exact (evalAll context scope rest within.2).bind fun _ => pure _
  termination_by structural nodes => nodes

theorem evalNamed (context : Context) (scope : ScopeId) :
    (args : List (String × Node)) → (Node.preorderNamed args).flatMap Node.declared ⊆ env →
    Advancing env (Step.evalNamed context scope args)
  | [], _ => by
      rw [Step.evalNamed]
      exact pure _
  | (name, node) :: rest, within => by
      rw [Step.evalNamed]
      rw [Node.preorderNamed, List.flatMap_append, List.append_subset] at within
      refine (eval context scope node within.1).bind fun value => ?_
      exact (evalNamed context scope rest within.2).bind fun _ => pure _
  termination_by structural args => args

theorem attach (context : Context) (scope : ScopeId) (pos : Int) (owner : Ref) (index : Nat) :
    (args : List (String × Node)) → (Node.preorderNamed args).flatMap Node.declared ⊆ env →
    Advancing env (Step.attach context scope pos owner index args)
  | [], _ => by
      rw [Step.attach]
      exact pure ()
  | (name, node) :: rest, within => by
      rw [Step.attach_cons]
      rw [Node.preorderNamed, List.flatMap_append, List.append_subset] at within
      refine (eval context scope node within.1).bind fun value => Relating.bind ?_ fun _ =>
        attach context scope pos owner (index + 1) rest within.2
      cases value with
      | none => exact pure ()
      | some value => exact (taint pos _).bind fun _ => onHeap _
  termination_by structural args => args

theorem declareAll (context : Context) (scope : ScopeId) (type : String) :
    (declarators : List (String × Node)) →
    (∀ declarator ∈ declarators, (declarator.1, type) ∈ env) →
    (Node.preorderNamed declarators).flatMap Node.declared ⊆ env →
    Advancing env (Step.declareAll context scope type declarators)
  | [], _, _ => by
      rw [Step.declareAll]
      exact pure ()
  | (name, node) :: rest, listed, within => by
      rw [Step.declareAll]
      rw [Node.preorderNamed, List.flatMap_append, List.append_subset] at within
      refine (eval context scope node within.1).bind fun value => ?_
      refine (onMemory fun done => .declare (listed _ (.head _)) done).bind fun _ => ?_
      exact declareAll context scope type rest
        (fun declarator member => listed declarator (.tail _ member)) within.2
  termination_by structural declarators => declarators

theorem returnAll (context : Context) (scope : ScopeId) :
    (values : List Node) → (Node.preorderAll values).flatMap Node.declared ⊆ env →
    Advancing env (Step.returnAll context scope values)
  | [], _ => by
      rw [Step.returnAll]
      exact pure ()
  | node :: rest, within => by
      rw [Step.returnAll]
      rw [Node.preorderAll, List.flatMap_append, List.append_subset] at within
      refine (eval context scope node within.1).bind fun value => (returned value).bind fun _ => ?_
      exact returnAll context scope rest within.2
  termination_by structural values => values

end

end Advancing

end Custody.Eval
