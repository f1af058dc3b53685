import Custody.Effect
import Custody.Registry

/-!
# Summaries of units

The summary of a unit is what its callers need to know: the effect on each
parameter and on the receiver.  Summaries are kept apart from the registry, in a
table by unit; a unit without entry has not been analyzed, and all its effects
are unknown.
-/

namespace Custody

/-- The effects of a unit on its parameters and its receiver. -/
structure Summary where
  params : Table String Effect
  receiver : Effect
  deriving DecidableEq, Inhabited

namespace Summary

/-- Why a summary refuses an answer or an update. -/
inductive Error where
  | noParameter (param : String) (unit : UnitId)
  | parameter (param : String) (unit : UnitId) (refusal : Effect.Refusal)
  | receiver (unit : UnitId) (refusal : Effect.Refusal)
  deriving DecidableEq, Repr

/-- The wording of an error. -/
def Error.message : Error → String
  | noParameter param unit =>
      "no parameter " ++ Text.quote param ++ " in " ++ unit.text ++ ": invalid effect assignment"
  | parameter param unit refusal =>
      "parameter " ++ Text.quote param ++ " of " ++ unit.text ++ ": " ++ refusal.message
  | receiver unit refusal => "receiver of " ++ unit.text ++ ": " ++ refusal.message

/-- The summary of a unit that has not been analyzed. -/
def unanalyzed (method : Method) : Summary where
  params := Table.ofList (method.params.map fun param => (param.name, .unknown))
  receiver := .unknown

/-- The effect on a parameter. -/
def param (summary : Summary) (unit : UnitId) (name : String) : Except Error Effect :=
  match summary.params.find? name with
  | some effect => .ok effect
  | none => .error (.noParameter name unit)

/-- Refine the effect on a parameter. -/
def setParam (summary : Summary) (unit : UnitId) (name : String) (next : UInt8) :
    Except Error Summary :=
  match summary.params.find? name with
  | none => .error (.noParameter name unit)
  | some current =>
      match current.refine next with
      | .ok effect => .ok { summary with params := summary.params.insert name effect }
      | .error refusal => .error (.parameter name unit refusal)

/-- Refine the effect on the receiver. -/
def setReceiver (summary : Summary) (unit : UnitId) (next : UInt8) : Except Error Summary :=
  match summary.receiver.refine next with
  | .ok effect => .ok { summary with receiver := effect }
  | .error refusal => .error (.receiver unit refusal)

end Summary

/-- The summaries of the units analyzed so far. -/
abbrev Summaries : Type := Table UnitId Summary

namespace Summaries

/-- The summary of a method. -/
def of (summaries : Summaries) (method : Method) : Summary :=
  (summaries.find? method.unit).getD (.unanalyzed method)

/-- Write the summary of a method. -/
def record (summaries : Summaries) (method : Method) (summary : Summary) : Summaries :=
  summaries.insert method.unit summary

end Summaries

end Custody
