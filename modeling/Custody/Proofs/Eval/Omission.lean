import Custody.Proofs.Data.Ending
import Custody.Proofs.Eval.Elementary

/-!
# What an evaluation passes over

An evaluation comes to the nodes of a body in an order of its own: a node is done after its
parts, and these are done from left to right (`Node.postorder`).  Some nodes stand for something
that is reported as passed over (`Node.omission?`); steps are composed with what they report.
-/

namespace Custody

open Code

namespace Code.Node

mutual

/-- The nodes of a tree in the order in which their evaluation ends: parts from left to right,
and a node after its parts.  Missing nodes are left out, and so are the targets of assignments,
which are not evaluated. -/
def postorder : Node → List Node
  | absent => []
  | vacant => []
  | node@(block _ stmts) => postorderAll stmts ++ [node]
  | node@(new _ _ _ args) => postorderNamed args ++ [node]
  | node@(localVar _ _ declarators) => postorderNamed declarators ++ [node]
  | node@(assign _ _ value) => postorder value ++ [node]
  | node@(ret _ values) => postorderAll values ++ [node]
  | node@(call _ _ _ args) => postorderAll args ++ [node]
  | node@(operation _ _ operands) => postorderAll operands ++ [node]
  | node@(literal ..) => [node]
  | node@(reference _) => [node]
  | node@(unsupported ..) => [node]
  | node@(alien ..) => [node]
  termination_by structural node => node

/-- The nodes of several trees, one after the other. -/
def postorderAll : List Node → List Node
  | [] => []
  | node :: rest => postorder node ++ postorderAll rest
  termination_by structural nodes => nodes

/-- The nodes of several named trees, one after the other. -/
def postorderNamed : List (String × Node) → List Node
  | [] => []
  | (_, node) :: rest => postorder node ++ postorderNamed rest
  termination_by structural nodes => nodes

end

/-- The target of an assignment, as a node. -/
def target? : Node → Option Node
  | assign _ target _ => target.map reference
  | _ => none

/-- The targets of the assignments among some nodes. -/
abbrev targets (nodes : List Node) : List Node := nodes.filterMap target?

/-- What is reported for a node that the evaluation passes over. -/
def omission? : Node → Option Eval.Skipped
  | unsupported pos construct => some ⟨pos, construct⟩
  | alien pos kind => some ⟨pos, kind.name⟩
  | assign pos (some target) _ =>
      if target.qualifier = "" ∧ target.member = this then some ⟨pos, "receiver assignment"⟩
      else none
  | _ => none

/-- What is reported for some nodes. -/
abbrev omissions (nodes : List Node) : List Eval.Skipped := nodes.filterMap omission?

/-! ## Both orders list the same nodes -/

section Orders

variable {node : Node} {past nodes : List Node}

/-- A node that assigns nothing is done after its parts. -/
theorem perm_node (plain : node.target? = none) (parts : (past ++ targets nodes).Perm nodes) :
    (past ++ [node] ++ targets (node :: nodes)).Perm (node :: nodes) := by
  have none : targets (node :: nodes) = targets nodes := List.filterMap_cons_none plain
  rw [none, List.append_assoc]
  exact List.perm_middle.trans (parts.cons node)

theorem perm_append {earlier others : List Node} (first : (earlier ++ targets others).Perm others)
    (second : (past ++ targets nodes).Perm nodes) :
    (earlier ++ past ++ targets (others ++ nodes)).Perm (others ++ nodes) := by
  rw [targets, List.filterMap_append, List.append_assoc]
  refine List.Perm.trans ?_ (first.append second)
  rw [List.append_assoc]
  exact (List.perm_append_comm_assoc _ _ _).append_left earlier

mutual

/-- Every node is done once, except for the targets of assignments. -/
theorem perm_postorder :
    (node : Node) → (node.postorder ++ targets node.preorder).Perm node.preorder
  | .absent | .vacant | .literal .. | .reference _ | .unsupported .. | .alien .. => .refl _
  | .block pos stmts => perm_node rfl (perm_postorderAll stmts)
  | .new pos type maker args => perm_node rfl (perm_postorderNamed args)
  | .localVar pos type declarators => perm_node rfl (perm_postorderNamed declarators)
  | .assign pos none value => perm_node rfl (perm_postorder value)
  | .assign pos (some target) value => by
      have parts := perm_postorder value
      rw [postorder, preorder, List.append_assoc]
      refine List.perm_middle.trans (.cons _ ?_)
      exact List.perm_middle.trans (parts.cons _)
  | .ret pos values => perm_node rfl (perm_postorderAll values)
  | .call pos qualifier member args => perm_node rfl (perm_postorderAll args)
  | .operation pos op operands => perm_node rfl (perm_postorderAll operands)
  termination_by structural node => node

theorem perm_postorderAll :
    (nodes : List Node) → (postorderAll nodes ++ targets (preorderAll nodes)).Perm
      (preorderAll nodes)
  | [] => .refl _
  | node :: rest => perm_append (perm_postorder node) (perm_postorderAll rest)
  termination_by structural nodes => nodes

theorem perm_postorderNamed :
    (args : List (String × Node)) → (postorderNamed args ++ targets (preorderNamed args)).Perm
      (preorderNamed args)
  | [] => .refl _
  | (_, node) :: rest => perm_append (perm_postorder node) (perm_postorderNamed rest)
  termination_by structural args => args

end

/-- Nothing is reported for the target of an assignment. -/
theorem omissions_targets (nodes : List Node) : omissions (targets nodes) = [] := by
  rw [omissions, targets, List.filterMap_filterMap, List.filterMap_eq_nil_iff]
  intro node _
  cases node with
  | assign pos target value => cases target <;> rfl
  | _ => rfl

/-- So both orders report the same. -/
theorem perm_omissions (nodes : List Node) :
    (omissions (postorderAll nodes)).Perm (omissions (preorderAll nodes)) := by
  have same := (perm_postorderAll nodes).filterMap omission?
  rw [List.filterMap_append] at same
  change (omissions _ ++ omissions (targets _)).Perm _ at same
  rwa [omissions_targets, List.append_nil] at same

end Orders

end Code.Node

namespace Eval

variable {α β : Type} {omitted later : List Skipped}

/-- A step that does not fail reports these constructs as passed over. -/
def Skips (omitted : List Skipped) (step : Step α) : Prop :=
  ∀ ⦃frame result next⦄, step frame = .ok result next → next.skipped = frame.skipped ++ omitted

namespace Skips

theorem pure (result : α) : Skips [] (Pure.pure result : Step α) := by
  intro frame other next done
  cases done
  rw [List.append_nil]

theorem throw (failure : Failure) : Skips omitted (throw failure : Step α) := by
  intro frame result next done
  cases done

theorem bind {step : Step α} {next : α → Step β} (first : Skips omitted step)
    (second : ∀ result, Skips later (next result)) : Skips (omitted ++ later) (step >>= next) := by
  intro frame result last done
  obtain ⟨value, middle, started, finished⟩ := bind_eq_ok done
  rw [second value finished, first started, List.append_assoc]

theorem locate {step : Step α} {pos : Int} {kind : Kind} (first : Skips omitted step) :
    Skips omitted (Step.locate pos kind step) :=
  fun _ _ _ done => first (Step.locate_eq_ok done)

end Skips

/-- An elementary step reports nothing. -/
theorem Elementary.skips {step : Step α} (elementary : Elementary step) : Skips [] step := by
  intro frame result next done
  have kept := (elementary.annotates frame).skipped
  rw [done] at kept
  rw [List.append_nil]
  exact kept

namespace Skips

variable {context : Context} {scope : ScopeId}

/-- This is the one step that passes over something. -/
theorem skip (context : Context) (pos : Int) (construct : String) :
    Skips [⟨pos, construct⟩] (Step.skip context pos construct) := by
  intro frame result next done
  cases done
  rfl

/-- An assignment to the receiver is passed over, all others are carried out. -/
theorem assign (pos : Int) (target : Reference) (value : Node) (object : Option Ref) :
    Skips (Node.omissions [.assign pos (some target) value])
      (Step.assign context scope pos target object) := by
  simp only [Node.omissions, List.filterMap_cons, List.filterMap_nil, Node.omission?]
  rcases Elementary.assign_cases context scope pos target object with
    ⟨plain, same, skipped⟩ | ⟨other, elementary⟩
  · rw [if_pos ⟨plain, same⟩, skipped]
    exact skip context pos _
  · rw [if_neg other]
    exact elementary.skips

theorem sweepAfter (stmt : Node) : Skips [] (Step.sweepAfter context stmt) :=
  fun _ _ _ done => (Elementary.onHeap _).skips (Step.sweepAfter_eq_ok done)

end Skips

end Eval

end Custody
