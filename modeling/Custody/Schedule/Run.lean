import Custody.Graph.Components
import Custody.Schedule.Result

/-!
# Running the analysis

Units are processed callees first.  Each is evaluated with the summaries of the
units before it, its own summary is recorded, and the units that waited for it
are told.  A run ends when all units are processed, when the rest waits for each
other, or when a unit fails.

With two or more workers the components of the graph are processed on their own.
They do not depend on each other, so one after the other does as well as side by
side; the results are put together in the order of the components.
-/

namespace Custody.Schedule

/-- The state of a run. -/
structure Progress where
  graph : Graph
  summaries : Summaries
  lastId : Nat
  log : List Eval.LogEntry
  result : Result

/-- A step of a run. -/
abbrev Action : Type → Type := EStateM Error Progress

/-- The updates of a summary by which the result of a unit is recorded: the
parameters in order and then the receiver. -/
def recordSteps (method : Method) (found : Eval.Result) :
    List (Summary → Except Summary.Error Summary) :=
  (method.params.map fun param summary =>
    summary.setParam method.unit param.name
      ((found.effects.find? param.name).getD .unknown).code) ++
    [fun summary => summary.setReceiver method.unit found.receiver.code]

/-- Apply updates up to the first that is refused. -/
def recordUntilRefused : List (Summary → Except Summary.Error Summary) →
    EStateM Summary.Error Summary Unit
  | [] => pure ()
  | step :: rest => fun summary =>
      match step summary with
      | .ok summary => recordUntilRefused rest summary
      | .error error => .error error summary

/-- Try all updates; of several errors the last counts. -/
def recordAll (steps : List (Summary → Except Summary.Error Summary)) (summary : Summary) :
    Option Summary.Error × Summary :=
  steps.foldl
    (fun (error, summary) step =>
      match step summary with
      | .ok summary => (error, summary)
      | .error error => (some error, summary))
    (none, summary)

/-- Evaluate a unit and record its summary. -/
def analyze (registry : Registry) (rules : Heap.Discipline) (unit : UnitId) (method : Method) :
    Action Unit := fun progress =>
  let outcome := Eval.run ⟨registry, progress.summaries, rules, method⟩ progress.lastId
  let evaluated := { progress with
    lastId := outcome.lastId
    log := progress.log ++ .processing unit :: outcome.log }
  match outcome.result with
  | .error failure => .error (.unit ⟨unit, .eval failure⟩) evaluated
  | .ok found =>
      match recordUntilRefused (recordSteps method found) (progress.summaries.of method) with
      | .error error summary =>
          .error (.unit ⟨unit, .record error⟩)
            { evaluated with summaries := progress.summaries.record method summary }
      | .ok () summary =>
          .ok () { evaluated with
            summaries := progress.summaries.record method summary
            result := progress.result.add unit found }

/-- Apply the events of a finished unit. -/
def wake : List Event → Action Unit
  | [] => pure ()
  | event :: rest => fun progress =>
      match Graph.apply event progress.graph with
      | .error error graph => .error (.unit ⟨event.unit, .graph error⟩) { progress with graph }
      | .ok () graph => wake rest { progress with graph }

/-- Mark an analyzed unit as processed. -/
def complete (unit : UnitId) : Action Unit := fun progress =>
  match Graph.finish unit progress.graph with
  | .error error graph => .error (.unit ⟨unit, .graph error⟩) { progress with graph }
  | .ok events graph => wake events { progress with graph }

/-- Process a dispatched unit. -/
def process (registry : Registry) (rules : Heap.Discipline) (unit : UnitId) : Action Unit :=
  fun progress =>
    match (progress.graph.nodes.find? unit).bind (·.method) with
    | none => .error (.unit ⟨unit, .eval .malformed⟩) progress
    | some method => (do
        analyze registry rules unit method
        complete unit : Action Unit) progress

theorem graph_analyze {registry : Registry} {rules : Heap.Discipline} {unit : UnitId}
    {method : Method} {progress next : Progress}
    (analyzed : analyze registry rules unit method progress = .ok () next) :
    next.graph = progress.graph := by
  unfold analyze at analyzed
  dsimp only at analyzed
  split at analyzed
  · cases analyzed
  · split at analyzed <;> cases analyzed
    rfl

theorem stepsLeft_wake {events : List Event} {progress next : Progress}
    (woken : wake events progress = .ok () next) :
    next.graph.stepsLeft ≤ progress.graph.stepsLeft := by
  induction events generalizing progress with
  | nil => cases woken; exact Nat.le_refl _
  | cons event rest ih =>
      unfold wake at woken
      split at woken
      · cases woken
      next graph applied =>
        exact Nat.le_trans (ih woken) (Nat.le_of_lt (Graph.stepsLeft_apply applied))

theorem stepsLeft_complete {unit : UnitId} {progress next : Progress}
    (completed : complete unit progress = .ok () next) :
    next.graph.stepsLeft < progress.graph.stepsLeft := by
  unfold complete at completed
  split at completed
  · cases completed
  next events graph finished =>
    exact Nat.lt_of_le_of_lt (stepsLeft_wake completed) (Graph.stepsLeft_finish finished)

/-- Processing a unit takes a step. -/
theorem stepsLeft_process {registry : Registry} {rules : Heap.Discipline} {unit : UnitId}
    {progress next : Progress}
    (processed : process registry rules unit progress = .ok () next) :
    next.graph.stepsLeft < progress.graph.stepsLeft := by
  unfold process at processed
  split at processed
  · cases processed
  · simp only [bind, EStateM.bind] at processed
    split at processed
    next done analyzed step =>
      rw [← graph_analyze step]
      exact stepsLeft_complete processed
    next => cases processed

/-- Process units until none is ready. -/
def processAll (registry : Registry) (rules : Heap.Discipline) : Action Unit := fun progress =>
  match dispatched : Graph.nextReady progress.graph with
  | .error error graph => .error (.graph error) { progress with graph }
  | .ok none graph =>
      match graph.stuck? with
      | some error => .error (.cycle error) { progress with graph }
      | none => .ok () { progress with graph }
  | .ok (some unit) graph =>
      match processed : process registry rules unit { progress with graph } with
      | .error error next => .error error next
      | .ok () next =>
          have : next.graph.stepsLeft < progress.graph.stepsLeft :=
            Nat.lt_trans (stepsLeft_process processed) (Graph.stepsLeft_nextReady dispatched)
          processAll registry rules next
  termination_by progress => progress.graph.stepsLeft

/-- How a run has ended. -/
structure Outcome where
  result : Result
  error : Option Error
  summaries : Summaries
  log : List Eval.LogEntry

/-- Process the units of a graph on their own, after others have been processed
with the given summaries and identifiers. -/
def runGraph (registry : Registry) (rules : Heap.Discipline) (graph : Graph)
    (summaries : Summaries) (lastId : Nat) : Option Error × Progress :=
  match processAll registry rules ⟨graph, summaries, lastId, [], .empty⟩ with
  | .ok () progress => (none, progress)
  | .error error progress => (some error, progress)

/-- Process graphs that do not depend on each other. -/
def runEach (registry : Registry) (rules : Heap.Discipline) (summaries : Summaries)
    (lastId : Nat) : List Graph → List (Option Error × Progress) × Summaries
  | [] => ([], summaries)
  | graph :: rest =>
      let (error, progress) := runGraph registry rules graph summaries lastId
      let (others, summaries) := runEach registry rules progress.summaries progress.lastId rest
      ((error, progress) :: others, summaries)

/-- Put the results of independent graphs together.  The first unit that failed
ends the result; units that wait for each other are reported together. -/
def merge (result : Result) (cycles : List CycleError) :
    List (Option Error × Progress) → Result × Option Error
  | [] => (result, if cycles.isEmpty then none else some (.cycle (.merge cycles)))
  | (error, progress) :: rest =>
      let result := result.append progress.result
      match error with
      | none => merge result cycles rest
      | some (.cycle cycle) => merge result (cycles ++ [cycle]) rest
      | some error => (result, some error)

/-- Process all units of a graph.  Fewer than two workers process it as a
whole, more its components. -/
def run (registry : Registry) (graph : Graph) (summaries : Summaries) (workers : Int) : Outcome :=
  if workers < 2 then
    let (error, progress) := runGraph registry .counting graph summaries 0
    ⟨progress.result, error, progress.summaries, progress.log⟩
  else
    let (parts, summaries) := runEach registry .counting summaries 0 graph.components
    let (result, error) := merge .empty [] parts
    ⟨result, error, summaries, []⟩

end Custody.Schedule
