import Custody.Schedule.Run
import Custody.Settings.Options

/-!
# Diagnostics

The result of a run is reported as diagnostics: effects on parameters and
receivers, constructs that were passed over, units that wait for each other, and
failures of the analysis itself.  A mask selects what is reported, and a filter
may suppress positions.  Failures are always reported.
-/

namespace Custody.Report

open Settings (BitMask)

/-- A diagnostic.  The end is `0` unless it is set. -/
structure Diagnostic where
  pos : Int
  endPos : Int
  message : String
  related : List (Int × String)
  deriving DecidableEq, Inhabited, Repr

/-- A diagnostic at a position with nothing related. -/
def Diagnostic.at (pos : Int) (message : String) : Diagnostic := ⟨pos, 0, message, []⟩

/-- What reports rest on. -/
structure Reporter where
  /-- Where units are looked up. -/
  registry : Registry
  /-- The positions that are suppressed. -/
  suppresses : Int → Bool
  mask : BitMask
  /-- The package clauses of the analyzed files. -/
  files : List Int

/-- Why the analysis of a package failed. -/
inductive Failure where
  | build (error : Graph.BuildError)
  | run (error : Schedule.Error)
  /-- A failure known by its text alone. -/
  | text (message : String)

/-- The wording of a failure. -/
def Failure.message : Failure → String
  | build error => error.message
  | run error => error.message
  | text message => message

namespace Reporter

/-- A diagnostic, unless its position is suppressed. -/
def filtered (reporter : Reporter) (diagnostics : List Diagnostic) : List Diagnostic :=
  diagnostics.filter fun diagnostic => !reporter.suppresses diagnostic.pos

/-- A diagnostic about a change, with the place of the change if it is known. -/
def changed (pos : Int) (message : String) (place : Option Int) : Diagnostic :=
  match place with
  | some place =>
      if place = 0 then .at pos message else ⟨pos, 0, message, [(place, "Changed here")]⟩
  | none => .at pos message

/-- The diagnostic about a receiver. -/
def receiver (reporter : Reporter) (method : Method) (found : Eval.Result) : List Diagnostic :=
  if reporter.mask.enabled Settings.Report.receiver && !method.decl.isConstructor &&
      found.receiver = .doesChange then
    [changed method.decl.pos
      ("Receiver of " ++ method.displayName ++ " is changed (ae:change)")
      (found.changes.find? Code.this)]
  else []

/-- The diagnostic about a parameter.  Parameters without a name are not
reported. -/
def param (reporter : Reporter) (method : Method) (found : Eval.Result) (param : Code.Param) :
    List Diagnostic :=
  let subject := "Parameter '" ++ param.name ++ "' of " ++ method.displayName
  if "$".isPrefixOf param.name then []
  else match found.effects.find? param.name with
    | some .doesChange =>
        if reporter.mask.enabled Settings.Report.changes then
          [changed param.pos (subject ++ " is changed (ae:change)") (found.changes.find? param.name)]
        else []
    | some .passForward =>
        if reporter.mask.enabled Settings.Report.forward then
          [.at param.pos (subject ++ " is passed forward (ae:forward)")]
        else []
    | some .doesNotChange =>
        if reporter.mask.enabled Settings.Report.unchanged then
          [.at param.pos (subject ++ " is not changed (ae:unchanged)")]
        else []
    | some .unknown | none => []

/-- The diagnostics about the effects of processed units. -/
def effects (reporter : Reporter) (result : Schedule.Result) : List Diagnostic :=
  let table := result.table
  reporter.filtered <| result.order.flatMap fun unit =>
    match reporter.registry.method? unit, table.find? unit with
    | some method, some found =>
        reporter.receiver method found ++ method.params.flatMap (reporter.param method found)
    | _, _ => []

/-- The name by which a reader knows a unit; the unit itself where it is not
registered. -/
def unitName (reporter : Reporter) (unit : UnitId) : String :=
  match reporter.registry.method? unit with
  | some method => method.displayName
  | none => unit.text

/-- The diagnostics about constructs that were passed over. -/
def unsupported (reporter : Reporter) (result : Schedule.Result) : List Diagnostic :=
  if reporter.mask.enabled Settings.Report.unsupported then
    reporter.filtered <| result.skipped.map fun (unit, skipped) =>
      .at skipped.pos ("Unsupported " ++ skipped.construct ++ " in " ++ reporter.unitName unit ++
        ", effects may be incomplete (ae:unsupported)")
  else []

/-- The diagnostics about units that wait for each other. -/
def cycle (reporter : Reporter) (error : CycleError) : List Diagnostic :=
  reporter.filtered <| error.stuck.filterMap fun stuck =>
    (reporter.registry.method? stuck.unit).map fun method =>
      let others := (stuck.waitFor.filterMap reporter.registry.method?).map (·.displayName)
      .at method.decl.pos ("Effects of " ++ method.displayName ++
        " are unknown, cyclic dependency on " ++ ", ".intercalate others ++ " (ae:cycle)")

/-- A position, if it is one. -/
def valid? (pos : Int) : Option Int := if pos = 0 then none else some pos

/-- The position of a failure as far as the failure itself knows it. -/
def ownPosition? (reporter : Reporter) : Failure → Option Int
  | .build (.edge error) => valid? error.pos
  | .run (.unit error) =>
      let node := match error.cause with
        | .eval (.located pos _ _) => valid? pos
        | _ => none
      node <|> (reporter.registry.method? error.unit).map (·.decl.pos)
  | _ => none

/-- The most specific position of a failure. -/
def position (reporter : Reporter) (failure : Failure) : Int :=
  (reporter.ownPosition? failure).getD (reporter.files.head?.getD 0)

/-- The diagnostic about a fault of the analysis itself. -/
def internalError (pos endPos : Int) (message : String) : Diagnostic :=
  ⟨pos, endPos, "Internal Error: " ++ message, []⟩

/-- The diagnostic about a failure. -/
def failure (reporter : Reporter) (failure : Failure) : Diagnostic :=
  let pos := reporter.position failure
  internalError pos pos failure.message

/-- The diagnostics about the outcome of a run. -/
def outcome (reporter : Reporter) (outcome : Schedule.Outcome) : List Diagnostic :=
  reporter.effects outcome.result ++ reporter.unsupported outcome.result ++
    match outcome.error with
    | none => []
    | some (.cycle error) => reporter.cycle error
    | some error => [reporter.failure (.run error)]

end Reporter

end Custody.Report
