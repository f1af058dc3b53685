import Custody.Memory
import Custody.Summary

/-!
# Failures of an evaluation

An evaluation fails for a cause, and the node whose own step failed is named
with it.  Nodes around that node pass the failure on as it is.

A body with a `vacant` node or with an assignment to nothing is not a body at
all; reaching such a place is `Failure.malformed`.
-/

namespace Custody.Eval

open Code

/-- Why an evaluation fails. -/
inductive Cause where
  | registry (error : Registry.Error)
  | summary (error : Summary.Error)
  | memory (error : Memory.Error)
  /-- A variable is bound nowhere. -/
  | notFound (name : String)
  /-- A class has no such member. -/
  | noMethod (unit : UnitId)
  /-- A unit is called before it has been analyzed. -/
  | notAnalyzed (unit : UnitId)
  /-- A unit is called before the effect on one of its parameters is known. -/
  | unknownEffect (param : String) (unit : UnitId)
  /-- Objects could not be released at the end of the unit. -/
  | leave (errors : List Memory.Error)
  deriving DecidableEq, Repr

/-- The wording of a cause. -/
def Cause.message : Cause → String
  | registry error => error.message
  | summary error => error.message
  | memory error => error.message
  | notFound name => Memory.notFoundMessage name
  | noMethod unit => "no method " ++ unit.text ++ ": unresolved call target"
  | notAnalyzed unit =>
      unit.text ++ " called before it was analyzed: unresolved call target"
  | unknownEffect param unit =>
      "parameter " ++ param ++ " of " ++ unit.text ++ " is " ++ Effect.unknown.name ++
        ": unresolved call target"
  | leave errors => "\n".intercalate (errors.map (·.message))

/-- How an evaluation fails. -/
inductive Failure where
  /-- The body has a hole in a place that must be filled. -/
  | malformed
  /-- A cause that no node has been named for. -/
  | plain (cause : Cause)
  /-- A cause at the node whose own step failed. -/
  | located (pos : Int) (kind : Kind) (cause : Cause)
  deriving DecidableEq, Repr

namespace Failure

/-- Name a node for a failure that has none. -/
def locate (pos : Int) (kind : Kind) : Failure → Failure
  | plain cause => located pos kind cause
  | failure => failure

/-- The wording of a failure. -/
def message : Failure → String
  | malformed => "malformed body"
  | plain cause => cause.message
  | located _ kind cause => kind.name ++ ": " ++ cause.message

end Failure

end Custody.Eval
