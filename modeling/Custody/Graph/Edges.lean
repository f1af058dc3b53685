import Custody.Graph.Basic

/-!
# Edges of the graph of units

Every call and every construction through a constructor makes the unit that it
is found in depend on the unit that it names.  Call sites are looked at in the
order of the units, and in preorder within a body; the first one that names no
unit of the graph ends the work.
-/

namespace Custody

open Code

/-- Why a call site names no unit. -/
inductive EdgeCause where
  /-- The type of the qualifier is not known. -/
  | registry (error : Registry.Error)
  /-- There is no such unit. -/
  | graph (error : Graph.Error)
  deriving DecidableEq, Repr

/-- The wording of a cause. -/
def EdgeCause.message : EdgeCause → String
  | registry error => error.message
  | graph error => error.message

/-- A call site that could not be turned into an edge. -/
structure EdgeError where
  unit : UnitId
  pos : Int
  call : String
  cause : EdgeCause
  deriving DecidableEq, Repr

/-- The wording of an edge error. -/
def EdgeError.message (error : EdgeError) : String :=
  error.unit.text ++ ": call " ++ error.call ++ ": " ++ error.cause.message

namespace Code.Node

/-- The unit that a node calls inside a method, if it calls one. -/
def callee (registry : Registry) (method : Method) : Node → Except Registry.Error (Option UnitId)
  | call _ qualifier member _ =>
      match registry.qualifierType method qualifier with
      | .ok type => .ok (some ⟨type, member⟩)
      | .error error => .error error
  | new _ type maker _ =>
      .ok (if maker = "" then none else some ⟨type, constructorMember maker⟩)
  | _ => .ok none

/-- The text of a call site in messages. -/
def callText : Node → String
  | call _ qualifier member _ => dotted qualifier member
  | new _ _ maker _ => maker
  | node => node.kind.name

end Code.Node

namespace Graph

/-- Let one unit come before another. -/
def addEdge (caller callee : UnitId) : Action Error Unit := fun graph =>
  if graph.nodes.contains callee then
    .ok () { graph with
      nodes := (graph.nodes.modify caller (.addBefore callee)).modify callee (.addAfter caller) }
  else .error (.notUnit callee) graph

/-- Add the edge of one call site. -/
def linkSite (registry : Registry) (unit : UnitId) (method : Method) (node : Node) :
    Action EdgeError Unit := fun graph =>
  let blame (cause : EdgeCause) : EdgeError := ⟨unit, node.pos, node.callText, cause⟩
  match node.callee registry method with
  | .error error => .error (blame (.registry error)) graph
  | .ok none => .ok () graph
  | .ok (some callee) =>
      match addEdge unit callee graph with
      | .ok () graph => .ok () graph
      | .error error graph => .error (blame (.graph error)) graph

/-- Add the edges of all call sites of a unit. -/
def linkUnit (registry : Registry) (unit : UnitId) (method : Method) : Action EdgeError Unit :=
  method.decl.nodes.forM (linkSite registry unit method)

/-- Add the edges of all call sites. -/
def link (registry : Registry) : Action EdgeError Unit := fun graph =>
  (graph.nodes.entries.forM fun (unit, node) =>
    match node.method with
    | some method => linkUnit registry unit method
    | none => pure ()) graph

end Graph

end Custody
