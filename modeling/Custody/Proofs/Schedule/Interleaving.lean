import Custody.Proofs.Eval.Steps
import Custody.Schedule.Run
import Mathlib.Data.List.Forall2
import Mathlib.Logic.Relation

/-!
# Workers side by side

Each component of a graph has a worker of its own.  A worker asks its graph for a unit,
evaluates it, writes what it has found out entry by entry, and marks the unit as
processed.  The workers share the summaries and the identifiers; between any two steps
of one worker the others may take steps of theirs.

No interleaving goes on for ever.  The run of the components one after the other is
one of them.
-/

namespace Custody.Schedule

/-- What a worker is about to do. -/
inductive Stage where
  /-- Ask for the next unit. -/
  | asking
  /-- Evaluate a unit. -/
  | evaluating (unit : UnitId)
  /-- Write what was found out about a unit, entry by entry, and then mark the unit as
  processed. -/
  | recording (unit : UnitId) (method : Method) (found : Eval.Result)
      (entries : List (Summary → Except Summary.Error Summary))
  /-- Nothing any more. -/
  | ended (error : Option Error)

/-- A worker with its graph and the units it has processed. -/
structure Worker where
  graph : Graph
  result : Result
  stage : Stage

/-- What the workers share. -/
structure Shared where
  summaries : Summaries
  lastId : Nat

namespace Worker

/-- The worker before its first step. -/
def start (graph : Graph) : Worker := ⟨graph, .empty, .asking⟩

/-- Is there anything left to do? -/
def IsBusy (worker : Worker) : Prop := ∀ error, worker.stage ≠ .ended error

/-- How the worker has ended. -/
def error (worker : Worker) : Option Error :=
  match worker.stage with
  | .ended error => error
  | _ => none

/-- The worker at its end. -/
def stop (worker : Worker) (error : Option Error) : Worker :=
  { worker with stage := .ended error }

/-- One step of a worker.  An entry that is refused leaves the summary as it is. -/
def tick (registry : Registry) (worker : Worker) (shared : Shared) : Worker × Shared :=
  match worker.stage with
  | .asking =>
      match Graph.nextReady worker.graph with
      | .error error _ => (worker.stop (some (.graph error)), shared)
      | .ok none graph => (worker.stop (graph.stuck?.map .cycle), shared)
      | .ok (some unit) graph => ({ worker with graph, stage := .evaluating unit }, shared)
  | .evaluating unit =>
      match (worker.graph.nodes.find? unit).bind (·.method) with
      | none => (worker.stop (some (.unit ⟨unit, .eval .malformed⟩)), shared)
      | some method =>
          let outcome := Eval.run (.counting registry shared.summaries method) shared.lastId
          match outcome.result with
          | .error failure =>
              (worker.stop (some (.unit ⟨unit, .eval failure⟩)),
                { shared with lastId := outcome.lastId })
          | .ok found =>
              ({ worker with stage := .recording unit method found (recordSteps method found) },
                { shared with lastId := outcome.lastId })
  | .recording unit method found (entry :: rest) =>
      match entry (shared.summaries.of method) with
      | .error error =>
          (worker.stop (some (.unit ⟨unit, .record error⟩)),
            { shared with
              summaries := shared.summaries.record method (shared.summaries.of method) })
      | .ok summary =>
          ({ worker with stage := .recording unit method found rest },
            { shared with summaries := shared.summaries.record method summary })
  | .recording unit _ found [] =>
      let result := worker.result.add unit found
      match complete unit ⟨worker.graph, shared.summaries, shared.lastId, [], result⟩ with
      | .error error _ => ({ worker with result }.stop (some error), shared)
      | .ok () next => (⟨next.graph, result, .asking⟩, shared)
  | .ended _ => (worker, shared)

end Worker

/-- The workers and what they share. -/
structure Floor where
  workers : List Worker
  shared : Shared

namespace Floor

/-- All workers before their first step. -/
def start (graphs : List Graph) (summaries : Summaries) (lastId : Nat) : Floor :=
  ⟨graphs.map .start, summaries, lastId⟩

/-- One of the workers takes a step. -/
inductive Step (registry : Registry) : Floor → Floor → Prop
  | tick (before : List Worker) (worker : Worker) (after : List Worker) (shared : Shared)
      (busy : worker.IsBusy) :
      Step registry ⟨before ++ worker :: after, shared⟩
        ⟨before ++ (worker.tick registry shared).1 :: after, (worker.tick registry shared).2⟩

/-- No worker has anything left to do. -/
def IsDone (floor : Floor) : Prop := ∀ worker ∈ floor.workers, ¬worker.IsBusy

/-- The results of the workers, put together in the order of their graphs. -/
def outcome (floor : Floor) : Outcome :=
  let (result, error) := merge .empty [] <| floor.workers.map fun worker =>
    (worker.error,
      ⟨worker.graph, floor.shared.summaries, floor.shared.lastId, [], worker.result⟩)
  ⟨result, error, floor.shared.summaries, []⟩

end Floor

theorem exists_of_mem_left {α β : Type} {related : α → β → Prop} {left : List α} {right : List β}
    (each : List.Forall₂ related left right) {one : α} (member : one ∈ left) :
    ∃ other ∈ right, related one other := by
  induction each with
  | nil => cases member
  | @cons first second _ _ here _ ih =>
      rcases List.mem_cons.1 member with rfl | later
      · exact ⟨second, .head _, here⟩
      · obtain ⟨other, listed, same⟩ := ih later
        exact ⟨other, .tail _ listed, same⟩

/-! ## Every interleaving comes to an end -/

/-- Replacing elements of a list by smaller ones comes to an end. -/
theorem wellFounded_replace {α : Type} {less : α → α → Prop} (founded : WellFounded less) :
    WellFounded fun next list : List α => ∃ before new old after, less new old ∧
      list = before ++ old :: after ∧ next = before ++ new :: after := by
  refine ⟨fun list => ?_⟩
  induction list with
  | nil =>
      refine ⟨_, fun next ⟨before, _, _, _, _, split, _⟩ => ?_⟩
      cases List.append_eq_nil_iff.1 split.symm |>.2
  | cons head rest ih =>
      -- Either the head or the rest gets smaller.
      induction head using founded.induction generalizing rest with
      | _ head smaller =>
          induction ih with
          | intro rest below later =>
              refine ⟨_, fun next ⟨before, new, old, after, less, split, same⟩ => ?_⟩
              subst same
              cases before with
              | nil =>
                  obtain ⟨rfl, rfl⟩ := List.cons.inj split
                  exact smaller new less rest ⟨_, below⟩
              | cons first others =>
                  obtain ⟨rfl, rfl⟩ := List.cons.inj split
                  exact later _ ⟨others, new, old, after, less, rfl, rfl⟩

namespace Worker

/-- How many steps a worker can take before the next phase of a unit. -/
def rank (worker : Worker) : Nat :=
  match worker.stage with
  | .asking => 1
  | .evaluating unit =>
      (((worker.graph.nodes.find? unit).bind (·.method)).map (·.params.length)).getD 0 + 4
  | .recording _ _ _ entries => entries.length + 2
  | .ended _ => 0

/-- Each step brings a unit into another phase or leaves less to do in this one. -/
theorem lex_tick (registry : Registry) {worker : Worker} (busy : worker.IsBusy)
    (shared : Shared) :
    Prod.Lex (· < ·) (· < ·)
      ((worker.tick registry shared).1.graph.stepsLeft, (worker.tick registry shared).1.rank)
      (worker.graph.stepsLeft, worker.rank) := by
  obtain ⟨graph, result, stage⟩ := worker
  cases stage with
  | asking =>
      unfold tick
      dsimp only
      split
      next => exact .right _ (by simp [rank, stop])
      next => exact .right _ (by simp [rank, stop])
      next dispatched => exact .left _ _ (Graph.stepsLeft_nextReady dispatched)
  | evaluating unit =>
      unfold tick
      dsimp only
      split
      next => exact .right _ (by simp [rank, stop])
      next method known =>
        split
        next => exact .right _ (by simp [rank, stop])
        next => exact .right _ (by simp [rank, known, recordSteps])
  | recording unit method found entries =>
      cases entries with
      | cons entry rest =>
          unfold tick
          dsimp only
          split
          next => exact .right _ (by simp [rank, stop])
          next => exact .right _ (by simp [rank])
      | nil =>
          unfold tick
          dsimp only
          split
          next => exact .right _ (by simp [rank, stop])
          next completed => exact .left _ _ (stepsLeft_complete completed)
  | ended error => exact (busy error rfl).elim

end Worker

/-- No interleaving goes on for ever. -/
theorem Floor.wellFounded_step (registry : Registry) :
    WellFounded fun next floor => Floor.Step registry floor next := by
  have lex : WellFounded fun next worker : Worker =>
      Prod.Lex (· < ·) (· < ·) (next.graph.stepsLeft, next.rank)
        (worker.graph.stepsLeft, worker.rank) :=
    InvImage.wf (fun worker : Worker => (worker.graph.stepsLeft, worker.rank))
      (Prod.lex Nat.lt_wfRel Nat.lt_wfRel).wf
  refine Subrelation.wf ?_ (InvImage.wf Floor.workers (wellFounded_replace lex))
  intro next floor step
  cases step with
  | tick before worker after shared busy =>
      exact ⟨before, _, worker, after, worker.lex_tick registry busy shared, rfl, rfl⟩

/-! ## One worker after the other -/

/-- What a progress shares with others. -/
def Progress.shared (progress : Progress) : Shared := ⟨progress.summaries, progress.lastId⟩

section Alone

variable {registry : Registry} {progress last : Progress} {unit : UnitId} {method : Method}
variable {found : Eval.Result} {graph : Graph} {result : Result} {shared : Shared}

/-- A worker takes steps while the others rest. -/
def Ticks (registry : Registry) : Worker × Shared → Worker × Shared → Prop :=
  Relation.ReflTransGen fun now next => now.1.IsBusy ∧ next = now.1.tick registry now.2

theorem Ticks.head {worker : Worker} {last : Worker × Shared} (busy : worker.IsBusy)
    (rest : Ticks registry (worker.tick registry shared) last) :
    Ticks registry (worker, shared) last :=
  Relation.ReflTransGen.head ⟨busy, rfl⟩ rest

/-- Steps of one worker are steps of the floor. -/
theorem Ticks.floor {now last : Worker × Shared} (ticks : Ticks registry now last)
    (before after : List Worker) :
    Relation.ReflTransGen (Floor.Step registry) ⟨before ++ now.1 :: after, now.2⟩
      ⟨before ++ last.1 :: after, last.2⟩ := by
  induction ticks with
  | refl => exact .refl
  | tail _ step ih =>
      obtain ⟨busy, rfl⟩ := step
      exact ih.tail (.tick before _ after _ busy)

theorem record_record (summaries : Summaries) (method : Method) (first second : Summary) :
    (summaries.record method first).record method second = summaries.record method second := by
  refine Table.ext fun unit => ?_
  simp only [Summaries.record, Table.find?_insert]
  split <;> rfl

theorem of_record (summaries : Summaries) (method : Method) (summary : Summary) :
    (summaries.record method summary).of method = summary := by
  simp [Summaries.of, Summaries.record]

/-- Written entry by entry, a summary becomes what it becomes when it is written at once. -/
theorem ticks_record {summary : Summary}
    (entry : Summary → Except Summary.Error Summary)
    (rest : List (Summary → Except Summary.Error Summary)) (shared : Shared)
    (recorded : recordUntilRefused (entry :: rest) (shared.summaries.of method) =
      .ok () summary) :
    Ticks registry (⟨graph, result, .recording unit method found (entry :: rest)⟩, shared)
      (⟨graph, result, .recording unit method found []⟩,
        { shared with summaries := shared.summaries.record method summary }) := by
  induction rest generalizing entry shared with
  | nil =>
      refine .head (by simp [Worker.IsBusy]) ?_
      unfold recordUntilRefused at recorded
      unfold Worker.tick
      dsimp only
      split at recorded
      next next written =>
        cases recorded
        rw [written]
        exact .refl
      next => cases recorded
  | cons second rest ih =>
      refine .head (by simp [Worker.IsBusy]) ?_
      unfold recordUntilRefused at recorded
      unfold Worker.tick
      dsimp only
      split at recorded
      next next written =>
        rw [written]
        have later := ih second
          { shared with summaries := shared.summaries.record method next }
          (by rw [of_record]; exact recorded)
        rw [record_record] at later
        exact later
      next => cases recorded

/-- Written entry by entry, a summary is refused where it is refused at once. -/
theorem ticks_refused {error : Summary.Error} {summary : Summary}
    (entries : List (Summary → Except Summary.Error Summary)) (shared : Shared)
    (refused : recordUntilRefused entries (shared.summaries.of method) =
      .error error summary) :
    Ticks registry (⟨graph, result, .recording unit method found entries⟩, shared)
      (⟨graph, result, .ended (some (.unit ⟨unit, .record error⟩))⟩,
        { shared with summaries := shared.summaries.record method summary }) := by
  induction entries generalizing shared with
  | nil => cases refused
  | cons entry rest ih =>
      refine .head (by simp [Worker.IsBusy]) ?_
      unfold recordUntilRefused at refused
      unfold Worker.tick
      dsimp only
      split at refused
      next next written =>
        rw [written]
        have later := ih { shared with summaries := shared.summaries.record method next }
          (by rw [of_record]; exact refused)
        rw [record_record] at later
        exact later
      next problem written =>
        cases refused
        rw [written]
        exact .refl

/-- Marking a unit as processed looks at the graph only, and changes nothing else. -/
theorem complete_eq (unit : UnitId) (progress other : Progress)
    (same : other.graph = progress.graph) :
    complete unit progress =
      match complete unit other with
      | .ok () next => .ok () { progress with graph := next.graph }
      | .error error next => .error error { progress with graph := next.graph } := by
  have woken : ∀ (events : List Event) (progress other : Progress),
      other.graph = progress.graph →
      wake events progress =
        match wake events other with
        | .ok () next => .ok () { progress with graph := next.graph }
        | .error error next => .error error { progress with graph := next.graph } := by
    intro events
    induction events with
    | nil =>
        intro progress other same
        simp only [wake, pure, EStateM.pure, same]
    | cons event rest ih =>
        intro progress other same
        simp only [wake, same]
        cases Graph.apply event progress.graph with
        | ok _ graph =>
            exact ih { progress with graph } { other with graph } rfl
        | error error graph => rfl
  simp only [complete, same]
  cases Graph.finish unit progress.graph with
  | ok events graph => exact woken events { progress with graph } { other with graph } rfl
  | error error graph => rfl

/-- A method is analyzed by the steps of its worker. -/
theorem ticks_analyze {progress : Progress}
    (known : (progress.graph.nodes.find? unit).bind (·.method) = some method) :
    match analyze registry .counting unit method progress with
    | .ok () next => ∃ found, next.graph = progress.graph ∧
        next.result = progress.result.add unit found ∧
        Ticks registry (⟨progress.graph, progress.result, .evaluating unit⟩, progress.shared)
          (⟨progress.graph, progress.result, .recording unit method found []⟩, next.shared)
    | .error error last => last.result = progress.result ∧
        Ticks registry (⟨progress.graph, progress.result, .evaluating unit⟩, progress.shared)
          (⟨progress.graph, progress.result, .ended (some error)⟩, last.shared) := by
  have busy : Worker.IsBusy ⟨progress.graph, progress.result, .evaluating unit⟩ := by
    simp [Worker.IsBusy]
  unfold analyze
  dsimp only
  cases evaluated : (Eval.run (.counting registry progress.summaries method)
      progress.lastId).result with
  | error failure =>
      refine ⟨rfl, .head busy ?_⟩
      simp only [Worker.tick, known, Progress.shared, evaluated]
      exact .refl
  | ok found =>
      dsimp only
      have first : Worker.tick registry ⟨progress.graph, progress.result, .evaluating unit⟩
          progress.shared =
            (⟨progress.graph, progress.result, .recording unit method found
              (recordSteps method found)⟩, ⟨progress.summaries,
                (Eval.run (.counting registry progress.summaries method) progress.lastId).lastId⟩) := by
        simp only [Worker.tick, known, Progress.shared, evaluated]
      cases recorded : recordUntilRefused (recordSteps method found)
          (progress.summaries.of method) with
      | ok _ summary =>
          refine ⟨found, rfl, rfl, .head busy ?_⟩
          rw [first]
          -- The receiver is written last, so there is always an entry.
          cases entries : recordSteps method found with
          | nil => simp [recordSteps] at entries
          | cons entry rest =>
              rw [entries] at recorded
              exact ticks_record entry rest _ recorded
      | error error summary =>
          refine ⟨rfl, .head busy ?_⟩
          rw [first]
          exact ticks_refused _ _ recorded

/-- A dispatched unit is processed by the steps of its worker. -/
theorem ticks_process (progress : Progress) (unit : UnitId) :
    match process registry .counting unit progress with
    | .ok () next =>
        Ticks registry (⟨progress.graph, progress.result, .evaluating unit⟩, progress.shared)
          (⟨next.graph, next.result, .asking⟩, next.shared)
    | .error error last =>
        ∃ graph, Ticks registry
          (⟨progress.graph, progress.result, .evaluating unit⟩, progress.shared)
          (⟨graph, last.result, .ended (some error)⟩, last.shared) := by
  unfold process
  cases known : (progress.graph.nodes.find? unit).bind (·.method) with
  | none =>
      refine ⟨progress.graph, .head (by simp [Worker.IsBusy]) ?_⟩
      simp only [Worker.tick, known]
      exact .refl
  | some method =>
      have analyzed := @ticks_analyze registry unit method progress known
      dsimp only
      cases done : analyze registry .counting unit method progress with
      | error error last =>
          rw [done] at analyzed
          rw [bind_of_error done]
          exact ⟨progress.graph, analyzed.1 ▸ analyzed.2⟩
      | ok _ middle =>
          rw [done] at analyzed
          rw [bind_of_ok done]
          obtain ⟨found, graph, result, ticks⟩ := analyzed
          have completed := complete_eq unit middle
            ⟨progress.graph, middle.summaries, middle.lastId, [], progress.result.add unit found⟩
            graph.symm
          have busy : Worker.IsBusy
              ⟨progress.graph, progress.result, .recording unit method found []⟩ := by
            simp [Worker.IsBusy]
          rw [completed]
          cases last : complete unit ⟨progress.graph, middle.summaries, middle.lastId, [],
              progress.result.add unit found⟩ with
          | ok _ next =>
              refine ticks.trans (Ticks.head busy ?_)
              simp only [Worker.tick, Progress.shared, last, result]
              exact .refl
          | error error next =>
              refine ⟨progress.graph, ticks.trans (Ticks.head busy ?_)⟩
              simp only [Worker.tick, Progress.shared, last, result]
              exact .refl

/-- A graph is processed by the steps of its worker. -/
theorem ticks_processAll (progress : Progress) :
    ∃ graph error last, Ticks registry
        (⟨progress.graph, progress.result, .asking⟩, progress.shared)
        (⟨graph, last.result, .ended error⟩, last.shared) ∧
      processAll registry .counting progress =
        match error with
        | none => .ok () last
        | some error => .error error last := by
  have busy : ∀ progress : Progress, Worker.IsBusy ⟨progress.graph, progress.result, .asking⟩ :=
    fun _ => by simp [Worker.IsBusy]
  fun_induction processAll registry .counting progress with
  | case1 progress error graph dispatched =>
      refine ⟨progress.graph, some (.graph error), { progress with graph }, .head (busy progress) ?_,
        rfl⟩
      simp only [Worker.tick, dispatched]
      exact .refl
  | case2 progress graph dispatched cycle waiting =>
      refine ⟨progress.graph, some (.cycle cycle), { progress with graph }, .head (busy progress) ?_,
        rfl⟩
      simp only [Worker.tick, dispatched, waiting]
      exact .refl
  | case3 progress graph dispatched free =>
      refine ⟨progress.graph, none, { progress with graph }, .head (busy progress) ?_, rfl⟩
      simp only [Worker.tick, dispatched, free]
      exact .refl
  | case4 progress unit graph dispatched error last refused =>
      have ticks := @ticks_process registry { progress with graph } unit
      rw [refused] at ticks
      obtain ⟨final, ticks⟩ := ticks
      refine ⟨final, some error, last, .head (busy progress) ?_, rfl⟩
      simp only [Worker.tick, dispatched]
      exact ticks
  | case5 progress unit graph dispatched next processed _ ih =>
      have ticks := @ticks_process registry { progress with graph } unit
      rw [processed] at ticks
      obtain ⟨final, error, last, rest, ended⟩ := ih
      refine ⟨final, error, last, .head (busy progress) ?_, ended⟩
      simp only [Worker.tick, dispatched]
      exact ticks.trans rest

theorem ticks_runGraph (graph : Graph) (summaries : Summaries) (lastId : Nat) :
    ∃ final, Ticks registry (.start graph, ⟨summaries, lastId⟩)
      (⟨final, (runGraph registry .counting graph summaries lastId).2.result,
        .ended (runGraph registry .counting graph summaries lastId).1⟩,
        (runGraph registry .counting graph summaries lastId).2.shared) := by
  obtain ⟨final, error, last, ticks, ended⟩ :=
    @ticks_processAll registry ⟨graph, summaries, lastId, [], .empty⟩
  refine ⟨final, ?_⟩
  unfold runGraph
  rw [ended]
  cases error with
  | none => exact ticks
  | some error => exact ticks

end Alone

/-- A worker has ended as a run of its graph has. -/
def EndedAs (worker : Worker) (part : Option Error × Progress) : Prop :=
  worker.stage = .ended part.1 ∧ worker.result = part.2.result

/-- Graphs are processed one after the other by the steps of their workers. -/
theorem steps_runEach (registry : Registry) (before : List Worker) (graphs : List Graph)
    (summaries : Summaries) (lastId : Nat) :
    ∃ workers shared, Relation.ReflTransGen (Floor.Step registry)
        ⟨before ++ graphs.map .start, summaries, lastId⟩ ⟨before ++ workers, shared⟩ ∧
      shared.summaries = (runEach registry .counting summaries lastId graphs).2 ∧
      List.Forall₂ EndedAs workers (runEach registry .counting summaries lastId graphs).1 := by
  induction graphs generalizing before summaries lastId with
  | nil => exact ⟨[], ⟨summaries, lastId⟩, .refl, rfl, .nil⟩
  | cons graph rest ih =>
      obtain ⟨final, ticks⟩ := @ticks_runGraph registry graph summaries lastId
      obtain ⟨workers, shared, steps, same, ended⟩ := ih
        (before ++ [⟨final, (runGraph registry .counting graph summaries lastId).2.result,
          .ended (runGraph registry .counting graph summaries lastId).1⟩])
        (runGraph registry .counting graph summaries lastId).2.summaries
        (runGraph registry .counting graph summaries lastId).2.lastId
      refine ⟨⟨final, (runGraph registry .counting graph summaries lastId).2.result,
          .ended (runGraph registry .counting graph summaries lastId).1⟩ :: workers, shared,
        (ticks.floor before (rest.map .start)).trans ?_, same, .cons ⟨rfl, rfl⟩ ended⟩
      simpa [Progress.shared] using steps

theorem merge_congr {left right : List (Option Error × Progress)}
    (same : List.Forall₂ (fun one other => one.1 = other.1 ∧ one.2.result = other.2.result)
      left right) (result : Result) (cycles : List CycleError) :
    merge result cycles left = merge result cycles right := by
  induction same generalizing result cycles with
  | nil => rfl
  | @cons one other _ _ equal _ ih =>
      obtain ⟨error, progress⟩ := one
      obtain ⟨_, another⟩ := other
      obtain ⟨rfl, results⟩ := equal
      unfold merge
      dsimp only at results ⊢
      rw [results]
      cases error with
      | none => exact ih _ _
      | some error =>
          cases error with
          | cycle cycle => exact ih _ _
          | unit error => rfl
          | graph error => rfl

/-- The components are processed one after the other in one of the interleavings. -/
theorem exists_interleaving (registry : Registry) (graph : Graph) (summaries : Summaries)
    {workers : Int} (many : 2 ≤ workers) :
    ∃ floor, Relation.ReflTransGen (Floor.Step registry) (.start graph.components summaries 0)
        floor ∧ floor.IsDone ∧ run registry graph summaries workers = floor.outcome := by
  obtain ⟨list, shared, steps, same, ended⟩ :=
    steps_runEach registry [] graph.components summaries 0
  refine ⟨⟨list, shared⟩, steps, fun worker member busy => ?_, ?_⟩
  · obtain ⟨part, _, stage, _⟩ := exists_of_mem_left ended member
    exact busy part.1 stage
  · have alike : List.Forall₂ (fun one other => one.1 = other.1 ∧ one.2.result = other.2.result)
        (list.map fun worker => (worker.error,
          (⟨worker.graph, shared.summaries, shared.lastId, [], worker.result⟩ : Progress)))
        (runEach registry .counting summaries 0 graph.components).1 := by
      rw [List.forall₂_map_left_iff]
      refine ended.imp fun worker part same => ⟨?_, same.2⟩
      simp only [Worker.error, same.1]
    have merged := merge_congr alike .empty []
    rw [run, if_neg (Int.not_lt.2 many), Floor.outcome]
    simp only [merged]
    rw [same]

end Custody.Schedule
