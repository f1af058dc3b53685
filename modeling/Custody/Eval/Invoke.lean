import Custody.Eval.Access

/-!
# Calling units

A call is simulated by the summary of the unit that is called.  Arguments that
it may capture are stored in its receiver, an argument that it passes forward is
the result of the call, and its receiver is changed or passed forward as the
summary says.
-/

namespace Custody.Eval

open Code

namespace Step

/-- The method with a member name. -/
def method (context : Context) (unit : UnitId) : Step Method := do
  let owner ← ofRegistry (context.registry.lookup unit.owner)
  match owner.method? unit.member with
  | some method => return method
  | none => fail (.noMethod unit)

/-- A unit that is called must have been analyzed. -/
def requireAnalyzed (context : Context) (callee : Method) : Step Unit :=
  if (context.summaries.of callee).receiver = .unknown then fail (.notAnalyzed callee.unit)
  else pure ()

/-- The field in which a captured argument is kept. -/
def captureField (callee : UnitId) (param : String) (number : Nat) : String :=
  "$" ++ callee.text ++ "." ++ param ++ "#" ++ toString number

/-- Let the receiver of a call hold an argument for good.  Where the receiver is
not known, the sink of the frame does. -/
def capture (context : Context) (pos : Int) (receiver : Option Ref) (callee : UnitId)
    (param : String) (argument : Ref) : Step Unit := do
  taint pos (some argument)
  taint pos receiver
  modify fun frame => { frame with captures := frame.captures + 1 }
  let frame ← get
  onHeap <| context.rules.setField (some (receiver.getD frame.sink))
    (captureField callee param frame.captures) (some argument)

/-- Apply the effects of a unit to the arguments from a position on.  The result
is the first object passed forward. -/
def applyArguments (context : Context) (pos : Int) (callee : Method) (receiver : Option Ref) :
    Nat → List (Option Ref) → Option Ref → Step (Option Ref)
  | _, [], result => pure result
  | index, value :: rest, result =>
      match callee.paramAt? index with
      | none => pure result
      | some param => do
          match (context.summaries.of callee).param callee.unit param.name with
          | .error error => fail (.summary error)
          | .ok .passForward =>
              applyArguments context pos callee receiver (index + 1) rest (result.or value)
          | .ok .doesChange =>
              match value with
              | none => pure ()
              | some value => capture context pos receiver callee.unit param.name value
              applyArguments context pos callee receiver (index + 1) rest result
          | .ok .doesNotChange =>
              applyArguments context pos callee receiver (index + 1) rest result
          | .ok .unknown => fail (.unknownEffect param.name callee.unit)

/-- Apply the effects of a unit to the objects of a call.  The result is the
object that the call passes forward, if there is one. -/
def applyEffects (context : Context) (pos : Int) (callee : Method) (receiver : Option Ref)
    (values : List (Option Ref)) : Step (Option Ref) := do
  let result ← applyArguments context pos callee receiver 0 values none
  match (context.summaries.of callee).receiver with
  | .doesChange =>
      taint pos receiver
      return result
  | .passForward => return result.or receiver
  | .doesNotChange | .unknown => return result

/-- The object on which a call is made. -/
def callReceiver (context : Context) (scope : ScopeId) (qualifier : String) :
    Step (Option Ref) := do
  if qualifier = "" then return (← first context scope this).1
  else return (← path context scope qualifier).1

end Step

end Custody.Eval
