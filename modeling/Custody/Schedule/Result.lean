import Custody.Eval.Unit
import Custody.Graph.Progress

/-!
# Results of a run

A run processes units one after the other.  Its result lists them in that order,
each with what its evaluation has found out.
-/

namespace Custody.Schedule

/-- The processed units in order. -/
structure Result where
  units : List (UnitId × Eval.Result)
  deriving Inhabited

namespace Result

/-- Nothing has been processed. -/
def empty : Result := ⟨[]⟩

/-- Add a processed unit. -/
def add (result : Result) (unit : UnitId) (found : Eval.Result) : Result :=
  ⟨result.units ++ [(unit, found)]⟩

/-- The units of both results. -/
def append (left right : Result) : Result := ⟨left.units ++ right.units⟩

/-- The units in the order of their processing. -/
def order (result : Result) : List UnitId := result.units.map (·.1)

/-- What was found out about each unit. -/
def table (result : Result) : Table UnitId Eval.Result := Table.ofList result.units

/-- The effects on the parameters of each unit. -/
def effects (result : Result) : Table UnitId (Table String Effect) :=
  result.table.map fun _ found => found.effects

/-- The effect on the receiver of each unit. -/
def receivers (result : Result) : Table UnitId Effect :=
  result.table.map fun _ found => found.receiver

/-- The positions of the first changes in each unit. -/
def changes (result : Result) : Table UnitId (Table String Int) :=
  result.table.map fun _ found => found.changes

/-- The objects at the end of each unit. -/
def heap (result : Result) : List (UnitId × Heap.ObjectState) :=
  result.units.flatMap fun (unit, found) => found.heap.map (unit, ·)

/-- The constructs that were passed over. -/
def skipped (result : Result) : List (UnitId × Eval.Skipped) :=
  result.units.flatMap fun (unit, found) => found.skipped.map (unit, ·)

/-- Has the unit been processed? -/
def isProcessed (result : Result) (unit : UnitId) : Bool := result.receivers.contains unit

/-- The size of a result in words. -/
def overview (result : Result) : String :=
  "[units=" ++ toString result.order.length ++ " objects=" ++ toString result.heap.length ++
    " unsupported=" ++ toString result.skipped.length ++ "]"

end Result

/-- Why a unit could not be processed. -/
inductive UnitCause where
  | eval (failure : Eval.Failure)
  | record (error : Summary.Error)
  | graph (error : Graph.Error)
  deriving DecidableEq, Repr

/-- The wording of a cause. -/
def UnitCause.message : UnitCause → String
  | eval failure => failure.message
  | record error => error.message
  | graph error => error.message

/-- A unit that could not be processed. -/
structure UnitError where
  unit : UnitId
  cause : UnitCause
  deriving DecidableEq, Repr

/-- The wording of a unit error. -/
def UnitError.message (error : UnitError) : String :=
  "unit " ++ error.unit.text ++ ": " ++ error.cause.message

/-- Why a run ends before all units are processed. -/
inductive Error where
  | unit (error : UnitError)
  | cycle (error : CycleError)
  /-- No unit could be dispatched although one is ready. -/
  | graph (error : Graph.Error)
  deriving DecidableEq, Repr

/-- The wording of an error. -/
def Error.message : Error → String
  | unit error => error.message
  | cycle error => error.message
  | graph error => error.message

end Custody.Schedule
