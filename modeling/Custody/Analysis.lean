import Custody.Lowering.Program
import Custody.Report
import Custody.Suppression.File

/-!
# Analyzing packages

The whole analysis of a package: its program is lowered, its units are processed
callees first, and the result is reported.
-/

namespace Custody.Analysis

open Report (Diagnostic Reporter)
open Suppression (CheckedFile)

/-- Why a package is not analyzed at all. -/
inductive Error where
  /-- The host has not looked through the package before. -/
  | inspectionMissing
  deriving DecidableEq, Repr

/-- The wording of an error. -/
def Error.message : Error → String
  | inspectionMissing => Settings.analysisName ++ ": inspect analyzer result missing"

/-- The outcome of an analysis.  There is no run if the units could not be
ordered. -/
structure Outcome where
  program : Code.Program
  diagnostics : List Diagnostic
  run : Option Schedule.Outcome

/-- The diagnostic about a file that the set of files does not know. -/
def unknownFile (file : Source.File) : Diagnostic :=
  Reporter.internalError file.packagePos file.endPos
    ("File " ++ file.packageName ++ " without valid info")

/-- Report and run a program. -/
def runProgram (registry : Registry) (summaries : Summaries) (workers : Int)
    (reporter : Reporter) : List Diagnostic × Option Schedule.Outcome :=
  match Graph.build registry .lexicographic with
  | .error error => ([reporter.failure (.build error)], none)
  | .ok graph =>
      let outcome := Schedule.run registry graph summaries workers
      (reporter.outcome outcome, some outcome)

/-- Analyze a package. -/
def analyze (options : Settings.Options) (package : Source.Package) : Outcome :=
  let index : Suppression.Index := ⟨package.files.filterMap CheckedFile.of?, options.generated⟩
  let program := Lowering.program package
  let registry := Registry.ofProgram program
  let reporter : Reporter :=
    { registry
      suppresses := index.suppresses
      mask := options.report
      files := package.files.map (·.packagePos) }
  let (diagnostics, run) := runProgram registry ∅ options.parallel reporter
  { program
    diagnostics := (package.files.filter (·.detached)).map unknownFile ++ diagnostics
    run }

/-- Analyze a package that the host may not have looked through. -/
def analyzeInspected (options : Settings.Options) (package : Source.Package)
    (inspected : Bool) : Except Error Outcome :=
  if inspected then .ok (analyze options package) else .error .inspectionMissing

end Custody.Analysis
