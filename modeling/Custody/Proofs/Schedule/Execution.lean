import Custody.Proofs.Eval.Renumbering
import Custody.Proofs.Graph.Building
import Custody.Schedule.Run
import Mathlib.Logic.Relation

/-!
# Executions

Where several units are ready, any of them may be dispatched next.  An execution
takes such a unit again and again, until none is left or one fails; the run of a
graph is the execution that always takes the unit its policy selects.

However the units are chosen, the graph stands as the processed units have left
it, and for each of them there is an account of how it was analyzed.
-/

namespace Custody.Schedule

variable {registry : Registry} {progress next last : Progress} {unit : UnitId}

/-- Before the first unit is processed. -/
def Progress.start (graph : Graph) (summaries : Summaries) (lastId : Nat) : Progress :=
  ⟨graph, summaries, lastId, [], .empty⟩

/-- Some ready unit is dispatched and processed. -/
def Step (registry : Registry) (progress next : Progress) : Prop :=
  ∃ unit graph, progress.graph.ready.contains unit = true ∧
    Graph.dispatch unit progress.graph = .ok () graph ∧
    process registry .counting unit { progress with graph } = .ok () next

/-- Nothing is processed any more: no unit is ready, or the one that is dispatched
cannot be processed. -/
inductive Ends (registry : Registry) (progress : Progress) : Option Error → Progress → Prop
  | finished (idle : progress.graph.ready.isEmpty = true)
      (free : progress.graph.stuck? = none) : Ends registry progress none progress
  | stuck {cycle : CycleError} (idle : progress.graph.ready.isEmpty = true)
      (waiting : progress.graph.stuck? = some cycle) :
      Ends registry progress (some (.cycle cycle)) progress
  | lost {unit : UnitId} {error : Graph.Error} {graph : Graph}
      (ready : progress.graph.ready.contains unit = true)
      (refused : Graph.dispatch unit progress.graph = .error error graph) :
      Ends registry progress (some (.graph error)) { progress with graph }
  | failed {unit : UnitId} {graph : Graph} {error : Error} {last : Progress}
      (ready : progress.graph.ready.contains unit = true)
      (dispatched : Graph.dispatch unit progress.graph = .ok () graph)
      (refused : process registry .counting unit { progress with graph } = .error error last) :
      Ends registry progress (some error) last

/-- Ready units are processed in some order, as long as there are any. -/
def Executes (registry : Registry) (progress : Progress) (error : Option Error)
    (last : Progress) : Prop :=
  ∃ middle, Relation.ReflTransGen (Step registry) progress middle ∧
    Ends registry middle error last

/-! ## The run of a graph -/

/-- The answers to the question for the next unit. -/
inductive Answers (graph : Graph) : EStateM.Result Graph.Error Graph (Option UnitId) → Prop
  | idle (empty : graph.ready.isEmpty = true) : Answers graph (.ok none graph)
  | sent {unit : UnitId} {after : Graph} (ready : graph.ready.contains unit = true)
      (dispatched : Graph.dispatch unit graph = .ok () after) :
      Answers graph (.ok (some unit) after)
  | lost {unit : UnitId} {error : Graph.Error} {after : Graph}
      (ready : graph.ready.contains unit = true)
      (refused : Graph.dispatch unit graph = .error error after) :
      Answers graph (.error error after)

/-- The policy selects a ready unit whenever there is one. -/
theorem answers_nextReady (graph : Graph) : Answers graph (Graph.nextReady graph) := by
  rw [Graph.nextReady_eq]
  cases listed : graph.ready.keys with
  | nil =>
      have empty : graph.ready.entries = [] := List.map_eq_nil_iff.1 listed
      exact .idle (by rw [Table.isEmpty, empty]; rfl)
  | cons unit rest =>
      have ready : graph.ready.contains unit = true := Table.mem_keys_iff.1 (by simp [listed])
      dsimp only
      split
      next dispatched => exact .sent ready dispatched
      next refused => exact .lost ready refused

/-- The outcome of a run is that of an execution. -/
def Executed (registry : Registry) (progress : Progress) :
    EStateM.Result Error Progress Unit → Prop
  | .ok () last => Executes registry progress none last
  | .error error last => Executes registry progress (some error) last

theorem Executes.of_ends {error : Option Error} (ends : Ends registry progress error last) :
    Executes registry progress error last := ⟨progress, .refl, ends⟩

theorem Executed.head {outcome : EStateM.Result Error Progress Unit}
    (step : Step registry progress next) (rest : Executed registry next outcome) :
    Executed registry progress outcome := by
  cases outcome with
  | ok _ last =>
      obtain ⟨middle, steps, ends⟩ := rest
      exact ⟨middle, .head step steps, ends⟩
  | error error last =>
      obtain ⟨middle, steps, ends⟩ := rest
      exact ⟨middle, .head step steps, ends⟩

/-- The run of a graph takes the units in one of the possible orders. -/
theorem executed_processAll (progress : Progress) :
    Executed registry progress (processAll registry .counting progress) := by
  have answers := fun progress : Progress => answers_nextReady progress.graph
  fun_induction processAll registry .counting progress with
  | case1 progress error graph dispatched =>
      cases dispatched ▸ answers progress with
      | lost ready refused => exact .of_ends (.lost ready refused)
  | case2 progress graph dispatched cycle waiting =>
      cases dispatched ▸ answers progress with
      | idle empty => exact .of_ends (.stuck empty waiting)
  | case3 progress graph dispatched free =>
      cases dispatched ▸ answers progress with
      | idle empty => exact .of_ends (.finished empty free)
  | case4 progress unit graph dispatched error last refused =>
      cases dispatched ▸ answers progress with
      | sent ready dispatched => exact .of_ends (.failed ready dispatched refused)
  | case5 progress unit graph dispatched next processed _ ih =>
      cases dispatched ▸ answers progress with
      | sent ready dispatched => exact ih.head ⟨unit, graph, ready, dispatched, processed⟩

theorem executes_runGraph (registry : Registry) (graph : Graph) (summaries : Summaries)
    (lastId : Nat) :
    Executes registry (.start graph summaries lastId)
      (runGraph registry .counting graph summaries lastId).1
      (runGraph registry .counting graph summaries lastId).2 := by
  have executed : Executed registry (.start graph summaries lastId) _ := executed_processAll _
  unfold runGraph
  unfold Progress.start at executed ⊢
  cases outcome : processAll registry .counting ⟨graph, summaries, lastId, [], .empty⟩ with
  | ok _ last =>
      rw [outcome] at executed
      exact executed
  | error error last =>
      rw [outcome] at executed
      exact executed

/-! ## Processing a unit -/

/-- The evaluation of a method has a result, which refines its summary. -/
structure Analyzed (registry : Registry) (summaries : Summaries) (lastId : Nat) (method : Method)
    (found : Eval.Result) (summary : Summary) : Prop where
  evaluated : (Eval.run (.counting registry summaries method) lastId).result = .ok found
  recorded : recordUntilRefused (recordSteps method found) (summaries.of method) = .ok () summary

theorem wake_of_applyAll {events : List Event} {graph : Graph}
    (applied : Graph.applyAll events progress.graph = .ok () graph) :
    wake events progress = .ok () { progress with graph } := by
  induction events generalizing progress with
  | nil =>
      cases applied
      rfl
  | cons event rest ih =>
      obtain ⟨_, middle, first, later⟩ := bind_eq_ok applied
      simp only [wake, first]
      exact ih later

/-- The analysis of a method is recorded, or it fails and leaves the result as it was. -/
theorem analyze_cases (registry : Registry) (unit : UnitId) (method : Method)
    (progress : Progress) :
    (∃ found summary next,
        Analyzed registry progress.summaries progress.lastId method found summary ∧
        analyze registry .counting unit method progress = .ok () next ∧
        next.graph = progress.graph ∧
        next.summaries = progress.summaries.record method summary ∧
        next.result = progress.result.add unit found) ∨
      ∃ error last,
        (∀ found summary,
          ¬Analyzed registry progress.summaries progress.lastId method found summary) ∧
        analyze registry .counting unit method progress = .error (.unit error) last ∧
        last.result = progress.result := by
  unfold analyze
  dsimp only
  split
  next failure evaluated =>
    refine .inr ⟨_, _, fun found summary analyzed => ?_, rfl, rfl⟩
    cases evaluated.symm.trans analyzed.evaluated
  next found evaluated =>
    split
    next error refused recorded =>
      refine .inr ⟨_, _, fun other summary analyzed => ?_, rfl, rfl⟩
      cases evaluated.symm.trans analyzed.evaluated
      cases recorded.symm.trans analyzed.recorded
    next summary recorded =>
      exact .inl ⟨found, summary, _, ⟨evaluated, recorded⟩, rfl, rfl, rfl, rfl⟩

/-- A unit has been processed after some others. -/
structure Adds (registry : Registry) (done : List UnitId) (progress : Progress) (unit : UnitId)
    (method : Method) (found : Eval.Result) (summary : Summary) (next : Progress) : Prop where
  known : registry.method? unit = some method
  fresh : unit ∉ done
  settled : Graph.Settled registry done unit
  analyzed : Analyzed registry progress.summaries progress.lastId method found summary
  consistent : next.graph.Consistent registry (unit :: done)
  summaries : next.summaries = progress.summaries.record method summary
  result : next.result = progress.result.add unit found

/-- A unit could not be processed after some others. -/
structure Refuses (registry : Registry) (done : List UnitId) (progress : Progress) (unit : UnitId)
    (method : Method) (last : Progress) : Prop where
  known : registry.method? unit = some method
  fresh : unit ∉ done
  settled : Graph.Settled registry done unit
  unanalyzed : ∀ found summary,
    ¬Analyzed registry progress.summaries progress.lastId method found summary
  kept : last.result = progress.result

section Processing

variable {done : List UnitId}

/-- What becomes of a ready unit depends on its analysis only: the graph never stands
in the way. -/
theorem process_cases (consistent : progress.graph.Consistent registry done)
    (ready : progress.graph.ready.contains unit = true) :
    ∃ method graph, Graph.dispatch unit progress.graph = .ok () graph ∧
      ((∃ found summary next,
          process registry .counting unit { progress with graph } = .ok () next ∧
          Adds registry done progress unit method found summary next) ∨
        ∃ error last,
          process registry .counting unit { progress with graph } = .error (.unit error) last ∧
          Refuses registry done progress unit method last) := by
  obtain ⟨present, fresh, settled⟩ := (consistent.ready_iff unit).1 ready
  obtain ⟨method, known⟩ := Option.isSome_iff_exists.1 present
  obtain ⟨graph, events, told, after, dispatched, ⟨node, listed, same⟩, finished, applied, last⟩ :=
    consistent.advance ready
  have found : (graph.nodes.find? unit).bind (·.method) = some method := by
    rw [listed, Option.bind_some, same, known]
  refine ⟨method, graph, dispatched, ?_⟩
  simp only [process, found]
  rcases analyze_cases registry unit method { progress with graph } with
    ⟨found, summary, middle, analyzed, done, kept, summaries, result⟩ |
    ⟨error, last, unanalyzed, failed, result⟩
  · have woken : wake events { middle with graph := told } =
        .ok () { middle with graph := after } := wake_of_applyAll applied
    refine .inl ⟨found, summary, { middle with graph := after }, ?_,
      known, fresh, settled, analyzed, last, summaries, result⟩
    rw [bind_of_ok done]
    simp only [complete, kept, finished, woken]
  · exact .inr ⟨error, last, bind_of_error failed, known, fresh, settled, unanalyzed, result⟩

theorem Step.cases (step : Step registry progress next)
    (consistent : progress.graph.Consistent registry done) :
    ∃ unit method found summary, Adds registry done progress unit method found summary next := by
  obtain ⟨unit, graph, ready, dispatched, processed⟩ := step
  obtain ⟨method, _, also, ⟨found, summary, _, same, adds⟩ | ⟨_, _, refused, _⟩⟩ :=
    process_cases consistent ready
  · cases dispatched.symm.trans also
    cases processed.symm.trans same
    exact ⟨unit, method, found, summary, adds⟩
  · cases dispatched.symm.trans also
    cases processed.symm.trans refused

/-- Either no unit is ready any more and the cycles of the graph are reported, or a
unit has failed. -/
theorem Ends.cases {error : Option Error} (ends : Ends registry progress error last)
    (consistent : progress.graph.Consistent registry done) :
    (progress.graph.ready.isEmpty = true ∧ last = progress ∧
        error = progress.graph.stuck?.map .cycle) ∨
      ∃ unit method unitError, error = some (.unit unitError) ∧
        Refuses registry done progress unit method last := by
  cases ends with
  | finished idle free => exact .inl ⟨idle, rfl, by rw [free]; rfl⟩
  | stuck idle waiting => exact .inl ⟨idle, rfl, by rw [waiting]; rfl⟩
  | lost ready refused =>
      obtain ⟨_, _, dispatched, _⟩ := process_cases consistent ready
      cases refused.symm.trans dispatched
  | failed ready dispatched refused =>
      obtain ⟨method, _, also, ⟨_, _, _, processed, _⟩ | ⟨_, _, same, refuses⟩⟩ :=
        process_cases consistent ready
      · cases dispatched.symm.trans also
        cases refused.symm.trans processed
      · cases dispatched.symm.trans also
        cases refused.symm.trans same
        exact .inr ⟨_, method, _, rfl, refuses⟩

end Processing

/-! ## What holds along an execution -/

/-- How a unit was analyzed: with summaries that say about the units it calls what is
said about them now, and about itself what was said at the start. -/
structure Account (registry : Registry) (start summaries : Summaries) (unit : UnitId)
    (found : Eval.Result) where
  method : Method
  reading : Summaries
  lastId : Nat
  summary : Summary
  known : registry.method? unit = some method
  callees : ∀ other, Graph.Calls registry unit other →
    reading.find? other = summaries.find? other
  own : reading.find? unit = start.find? unit
  analyzed : Analyzed registry reading lastId method found summary
  written : summaries.find? unit = some summary

/-- The processed units have been processed after the units they call, and the other
units have not been touched. -/
structure Sound (registry : Registry) (start : Summaries) (progress : Progress) : Prop where
  consistent : progress.graph.Consistent registry progress.result.order.reverse
  distinct : progress.result.order.Nodup
  settled : ∀ unit ∈ progress.result.order,
    Graph.Settled registry progress.result.order unit
  untouched : ∀ unit, unit ∉ progress.result.order →
    progress.summaries.find? unit = start.find? unit
  accounts : ∀ unit found, (unit, found) ∈ progress.result.units →
    Nonempty (Account registry start progress.summaries unit found)

/-- There is an account for each of some units that call each other only. -/
structure Accounted (registry : Registry) (start summaries : Summaries) (result : Result) :
    Prop where
  settled : ∀ unit ∈ result.order, Graph.Settled registry result.order unit
  accounts : ∀ unit found, (unit, found) ∈ result.units →
    Nonempty (Account registry start summaries unit found)

theorem Sound.accounted {start : Summaries} (sound : Sound registry start progress) :
    Accounted registry start progress.summaries progress.result :=
  ⟨sound.settled, sound.accounts⟩

@[simp] theorem order_add (result : Result) (unit : UnitId) (found : Eval.Result) :
    (result.add unit found).order = result.order ++ [unit] := by
  simp [Result.order, Result.add]

section Steps

variable {start : Summaries} {done : List UnitId} {method : Method} {found : Eval.Result}
variable {summary : Summary}

/-- Only the summary of the unit itself is written. -/
theorem Adds.find?_summaries (adds : Adds registry done progress unit method found summary next)
    (named : registry.Named) (other : UnitId) :
    next.summaries.find? other =
      if other = unit then some summary else progress.summaries.find? other := by
  rw [adds.summaries, Summaries.record, named unit method adds.known, Table.find?_insert]
  simp only [Std.LawfulEqCmp.compare_eq_iff_eq]

/-- The account of a processed unit stands as long as nothing is written about the
unit or those it calls. -/
def Account.later {summaries later : Summaries}
    (account : Account registry start summaries unit found)
    (callees : ∀ other, Graph.Calls registry unit other →
      later.find? other = summaries.find? other)
    (same : later.find? unit = summaries.find? unit) :
    Account registry start later unit found :=
  { account with
    callees := fun other calls => (account.callees other calls).trans (callees other calls).symm
    written := same.trans account.written }

/-- A step keeps everything: what the unit reads has been written before, and what it
writes nobody has read. -/
theorem Sound.step (named : registry.Named) (sound : Sound registry start progress)
    (step : Step registry progress next) : Sound registry start next := by
  obtain ⟨unit, method, found, summary, adds⟩ := step.cases sound.consistent
  have written := adds.find?_summaries named
  have order : next.result.order = progress.result.order ++ [unit] := by
    rw [adds.result, order_add]
  have fresh : unit ∉ progress.result.order := by simpa using adds.fresh
  have settled : Graph.Settled registry progress.result.order unit := by
    intro other calls
    simpa using adds.settled other calls
  have elsewhere : ∀ other ∈ progress.result.order,
      next.summaries.find? other = progress.summaries.find? other := by
    intro other processed
    rw [written, if_neg]
    rintro rfl
    exact fresh processed
  refine ⟨?_, ?_, fun other processed => ?_, fun other absent => ?_, fun other result listed => ?_⟩
  · rw [order, List.reverse_append]
    exact adds.consistent
  · rw [order, List.nodup_append]
    refine ⟨sound.distinct, by simp, fun other processed last here => ?_⟩
    rintro rfl
    rw [List.mem_singleton.1 here] at processed
    exact fresh processed
  · rw [order] at processed ⊢
    intro third calls
    rcases List.mem_append.1 processed with earlier | last
    · exact List.mem_append_left _ (sound.settled other earlier third calls)
    · rw [List.mem_singleton.1 last] at calls
      exact List.mem_append_left _ (settled third calls)
  · rw [order, List.mem_append, not_or, List.mem_singleton] at absent
    rw [written, if_neg absent.2]
    exact sound.untouched other absent.1
  · rw [adds.result] at listed
    rcases List.mem_append.1 listed with earlier | last
    · have processed : other ∈ progress.result.order := List.mem_map.2 ⟨_, earlier, rfl⟩
      obtain ⟨account⟩ := sound.accounts other result earlier
      exact ⟨account.later (fun third calls => elsewhere third (sound.settled other processed third
        calls)) (elsewhere other processed)⟩
    · cases List.mem_singleton.1 last
      exact ⟨{
        method, reading := progress.summaries, lastId := progress.lastId, summary
        known := adds.known
        callees := fun third calls => (elsewhere third (settled third calls)).symm
        own := sound.untouched unit fresh
        analyzed := adds.analyzed
        written := (written unit).trans (if_pos rfl) }⟩

theorem Sound.steps (named : registry.Named) (sound : Sound registry start progress)
    (steps : Relation.ReflTransGen (Step registry) progress next) : Sound registry start next := by
  induction steps with
  | refl => exact sound
  | tail _ step ih => exact ih.step named step

end Steps

/-- Nothing has been processed at the start of a run. -/
theorem sound_start {policy : Policy} {graph : Graph} (named : registry.Named)
    (built : Graph.build registry policy = .ok graph) (summaries : Summaries) (lastId : Nat) :
    Sound registry summaries (.start graph summaries lastId) where
  consistent := Graph.consistent_build named built
  distinct := List.nodup_nil
  settled := fun _ processed => (List.not_mem_nil processed).elim
  untouched := fun _ _ => rfl
  accounts := fun _ _ listed => (List.not_mem_nil listed).elim

end Custody.Schedule
