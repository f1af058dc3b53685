import Custody.Proofs.Eval.Knowledge
import Custody.Proofs.Schedule.Cycles

/-!
# Summaries along an execution

Where nothing is known at the start, the summary of every processed unit is what was
found out about it, and it answers for the receiver and all parameters.  As callees
come first, no evaluation ever asks a summary that does not answer, and no summary
refuses what is recorded in it.
-/

namespace Custody

namespace Schedule

variable {registry : Registry} {unit : UnitId} {method : Method} {found : Eval.Result}

/-! ## Recording what was found out -/

theorem refine_of_code {current effect : Effect} (kept : current = .unknown ∨ current = effect)
    (known : effect ≠ .unknown) : current.refine effect.code = .ok effect := by
  rcases kept with rfl | rfl
  · simp [Effect.refine]
  · simp [Effect.refine, known]

/-- The effects on some parameters are recorded one after the other.  A parameter that
occurs twice is recorded twice with the same effect. -/
theorem record_params {effects : Table String Effect}
    (known : ∀ name effect, effects.find? name = some effect → effect ≠ .unknown)
    (unit : UnitId) (rest : List (Summary → Except Summary.Error Summary))
    (params : List Code.Param) (summary : Summary)
    (fits : ∀ param ∈ params, ∃ current effect, summary.params.find? param.name = some current ∧
      effects.find? param.name = some effect ∧ (current = .unknown ∨ current = effect)) :
    ∃ table, recordUntilRefused
        ((params.map fun param (summary : Summary) => summary.setParam unit param.name
          ((effects.find? param.name).getD .unknown).code) ++ rest) summary =
        recordUntilRefused rest { summary with params := table } ∧
      ∀ name, table.find? name =
        if name ∈ params.map (·.name) then effects.find? name else summary.params.find? name := by
  induction params generalizing summary with
  | nil => exact ⟨summary.params, rfl, fun name => by simp⟩
  | cons param others ih =>
      obtain ⟨current, effect, before, said, kept⟩ := fits param (.head _)
      have refined := refine_of_code kept (known param.name effect said)
      have set : summary.setParam unit param.name
          ((effects.find? param.name).getD .unknown).code =
          .ok { summary with params := summary.params.insert param.name effect } := by
        simp only [Summary.setParam, before, said, Option.getD_some, refined]
      obtain ⟨table, recorded, entries⟩ :=
        ih { summary with params := summary.params.insert param.name effect }
          fun other member => by
            obtain ⟨earlier, told, listed, also, fit⟩ := fits other (.tail _ member)
            by_cases same : other.name = param.name
            · refine ⟨effect, effect, ?_, ?_, .inr rfl⟩
              · simp [same]
              · rw [same, said]
            · exact ⟨earlier, told, by rw [Table.find?_insert_of_ne same]; exact listed, also, fit⟩
      refine ⟨table, ?_, fun name => ?_⟩
      · simp only [List.map_cons, List.cons_append, recordUntilRefused, set]
        exact recorded
      · rw [entries]
        simp only [List.map_cons, List.mem_cons]
        by_cases later : name ∈ others.map (·.name)
        · simp [later]
        · by_cases here : name = param.name
          · simp [here, said]
          · simp [later, here, Table.find?_insert_of_ne here]

/-- A summary of which nothing is known takes whatever was found out. -/
theorem record_unanalyzed (answers : found.summary.Answers method) :
    recordUntilRefused (recordSteps method found) (.unanalyzed method) = .ok () found.summary := by
  have names : ∀ name, ((Summary.unanalyzed method).params.find? name).isSome = true ↔
      name ∈ method.params.map (·.name) := by
    intro name
    refine Table.isSome_find?_ofList.trans ?_
    simp [Function.comp_def]
  have known : ∀ name effect, found.effects.find? name = some effect → effect ≠ .unknown :=
    answers.effects
  obtain ⟨table, recorded, entries⟩ := record_params known method.unit
    [fun summary => summary.setReceiver method.unit found.receiver.code] method.params
    (.unanalyzed method) fun param member => by
      have listed : param.name ∈ method.params.map (·.name) := List.mem_map.2 ⟨param, member, rfl⟩
      obtain ⟨current, before⟩ := Option.isSome_iff_exists.1 ((names param.name).2 listed)
      obtain ⟨effect, said⟩ := Option.isSome_iff_exists.1 ((answers.params param.name).2 listed)
      obtain ⟨_, _, entry⟩ := List.mem_map.1 (Table.mem_of_find?_ofList before)
      exact ⟨current, effect, before, said, .inl (Prod.mk.inj entry).2.symm⟩
  have same : table = found.effects := by
    refine Table.ext fun name => ?_
    rw [entries]
    split
    next => rfl
    next absent =>
      have first := (names name).not.2 absent
      have second := (answers.params name).not.2 absent
      rw [Bool.not_eq_true, Option.isSome_eq_false_iff, Option.isNone_iff_eq_none] at first second
      rw [first]
      exact second.symm
  have receiver : Effect.refine .unknown found.receiver.code = .ok found.receiver :=
    refine_of_code (.inl rfl) answers.receiver
  refine recorded.trans ?_
  simp only [recordUntilRefused, Summary.setReceiver, Summary.unanalyzed, receiver, same]
  rfl

/-! ## Along an execution -/

/-- Nothing is known of any unit. -/
def Blank (registry : Registry) (summaries : Summaries) : Prop :=
  ∀ unit method, registry.method? unit = some method →
    summaries.of method = .unanalyzed method

theorem Blank.of_find?_eq {start summaries : Summaries} (blank : Blank registry start)
    (named : registry.Named) (known : registry.method? unit = some method)
    (same : summaries.find? unit = start.find? unit) :
    summaries.of method = .unanalyzed method := by
  rw [← blank unit method known, Summaries.of, Summaries.of, named unit method known, same]

/-- What is said about a unit with an account is what was found out about it, and
answers for all its parameters. -/
theorem Accounted.answers {start summaries : Summaries} {result : Result}
    (accounted : Accounted registry start summaries result) (named : registry.Named)
    (blank : Blank registry start) (listed : (unit, found) ∈ result.units) :
    ∃ method, registry.method? unit = some method ∧
      summaries.find? unit = some found.summary ∧ found.summary.Answers method := by
  obtain ⟨account⟩ := accounted.accounts unit found listed
  have answers := Eval.answers_of_run account.analyzed.evaluated
  have recorded := account.analyzed.recorded
  rw [blank.of_find?_eq named account.known account.own, record_unanalyzed answers] at recorded
  have same : found.summary = account.summary := (EStateM.Result.ok.inj recorded).2
  exact ⟨account.method, account.known, same ▸ account.written, answers⟩

section Sound

variable {start : Summaries} {progress next last : Progress}

/-- Whatever a unit calls answers once all that it calls is processed. -/
theorem Sound.answers_callee (sound : Sound registry start progress) (named : registry.Named)
    (blank : Blank registry start)
    (settled : Graph.Settled registry progress.result.order unit) {other : UnitId}
    {callee : Method} (calls : Graph.Calls registry unit other)
    (resolved : registry.method? other = some callee) :
    (progress.summaries.of callee).Answers callee := by
  obtain ⟨⟨_, found⟩, listed, rfl⟩ := List.mem_map.1 (settled other calls)
  obtain ⟨_, same, written, answers⟩ := sound.accounted.answers named blank listed
  cases resolved.symm.trans same
  rw [Summaries.of, named _ callee resolved, written]
  exact answers

end Sound

/-! ## Units that fail -/

/-- What holds when a unit is dispatched: whatever it calls answers, its evaluation does
not fail for want of an answer, and what it finds out is recorded as it is. -/
structure Informed (registry : Registry) (progress : Progress) (unit : UnitId)
    (method : Method) : Prop where
  callees : ∀ other callee, Graph.Calls registry unit other →
    registry.method? other = some callee → (progress.summaries.of callee).Answers callee
  failure : ∀ failure, (Eval.run (.counting registry progress.summaries method)
      progress.lastId).result = .error failure →
    failure.Admitted (·.isUnanswered = false)
  recorded : ∀ found, (Eval.run (.counting registry progress.summaries method)
      progress.lastId).result = .ok found →
    recordUntilRefused (recordSteps method found) (progress.summaries.of method) =
      .ok () found.summary

section Dispatching

variable {start : Summaries} {progress last : Progress}

theorem Sound.informed (sound : Sound registry start progress) (named : registry.Named)
    (blank : Blank registry start)
    (ready : progress.graph.ready.contains unit = true)
    (known : registry.method? unit = some method) : Informed registry progress unit method := by
  obtain ⟨_, fresh, settled⟩ := (sound.consistent.ready_iff unit).1 ready
  have callees : ∀ other callee, Graph.Calls registry unit other →
      registry.method? other = some callee → (progress.summaries.of callee).Answers callee := by
    intro other callee calls resolved
    refine sound.answers_callee named blank (fun third calls => ?_) calls resolved
    exact List.mem_reverse.1 (settled third calls)
  have answers : ∀ node ∈ method.decl.nodes, ∀ other callee,
      node.callee registry method = .ok (some other) → registry.method? other = some callee →
      (progress.summaries.of callee).Answers callee :=
    fun node member other callee names => callees other callee ⟨method, known, node, member, names⟩
  refine ⟨callees, fun failure failed => Eval.admitted_of_run answers failed, ?_⟩
  intro found done
  rw [blank.of_find?_eq named known (sound.untouched unit (by simpa using fresh))]
  exact record_unanalyzed (Eval.answers_of_run done)

theorem exists_analyze_error (progress : Progress) (unit : UnitId) {failure : Eval.Failure}
    (ended : (Eval.run (.counting registry progress.summaries method) progress.lastId).result =
      .error failure) :
    ∃ last, analyze registry .counting unit method progress =
        .error (.unit ⟨unit, .eval failure⟩) last ∧
      last.summaries = progress.summaries ∧ last.result = progress.result := by
  simp only [analyze, ended]
  exact ⟨_, rfl, rfl, rfl⟩

/-- A unit that fails does so in its evaluation, and nothing is recorded of it. -/
theorem Informed.failed (informed : Informed registry progress unit method) {graph : Graph}
    {error : Error} {done : List UnitId} (consistent : progress.graph.Consistent registry done)
    (ready : progress.graph.ready.contains unit = true)
    (dispatched : Graph.dispatch unit progress.graph = .ok () graph)
    (known : registry.method? unit = some method)
    (refused : process registry .counting unit { progress with graph } = .error error last) :
    last.summaries = progress.summaries ∧ last.result = progress.result ∧
      ∃ failure, error = .unit ⟨unit, .eval failure⟩ ∧
        failure.Admitted (·.isUnanswered = false) := by
  obtain ⟨_, _, also, ⟨_, _, _, processed, _⟩ | ⟨_, _, same, refuses⟩⟩ :=
    process_cases consistent ready
  · cases dispatched.symm.trans also
    cases refused.symm.trans processed
  · cases dispatched.symm.trans also
    cases known.symm.trans refuses.known
    obtain ⟨_, _, _, _, dispatches, ⟨node, listed, here⟩, _⟩ := consistent.advance ready
    cases dispatched.symm.trans dispatches
    have stands : (graph.nodes.find? unit).bind (·.method) = some method := by
      rw [listed, Option.bind_some, here, known]
    cases ended : (Eval.run (.counting registry progress.summaries method)
        progress.lastId).result with
    | ok found =>
        exact (refuses.unanalyzed found found.summary ⟨ended, informed.recorded found ended⟩).elim
    | error failure =>
        obtain ⟨final, stopped, summaries, result⟩ :=
          exists_analyze_error { progress with graph } unit ended
        simp only [process, stands] at refused
        rw [bind_of_error stopped] at refused
        cases refused
        exact ⟨summaries, result, failure, rfl, informed.failure failure ended⟩

end Dispatching

/-! ## Executions that start with nothing known -/

/-- What is known at the end of an execution: the summaries of the processed units are
their results and answer for all parameters, nothing is known of the other units, and a
unit that failed did so for another cause. -/
structure Known (registry : Registry) (error : Option Error) (last : Progress) : Prop where
  distinct : last.result.order.Nodup
  calleesFirst : CalleesFirst registry last.result.order
  processed : ∀ unit ∈ last.result.order, ∃ method summary,
    registry.method? unit = some method ∧ last.summaries.find? unit = some summary ∧
    last.result.effects.find? unit = some summary.params ∧
    last.result.receivers.find? unit = some summary.receiver ∧ summary.Answers method
  others : ∀ unit method, registry.method? unit = some method → unit ∉ last.result.order →
    last.summaries.of method = .unanalyzed method
  complete : error = none → ∀ unit, (registry.method? unit).isSome = true →
    unit ∈ last.result.order
  failed : ∀ unit cause, error = some (.unit ⟨unit, cause⟩) →
    ∃ failure, cause = .eval failure ∧ failure.Admitted (·.isUnanswered = false)

section Ending

variable {start : Summaries} {progress last : Progress}

theorem Sound.known (sound : Sound registry start progress) (named : registry.Named)
    (blank : Blank registry start) (first : CalleesFirst registry progress.result.order)
    {error : Option Error} (ends : Ends registry progress error last) :
    Known registry error last := by
  have processed : ∀ unit ∈ progress.result.order, ∃ method summary,
      registry.method? unit = some method ∧ progress.summaries.find? unit = some summary ∧
      progress.result.effects.find? unit = some summary.params ∧
      progress.result.receivers.find? unit = some summary.receiver ∧ summary.Answers method := by
    intro unit listed
    obtain ⟨⟨_, found⟩, member, rfl⟩ := List.mem_map.1 listed
    obtain ⟨method, known, written, answers⟩ := sound.accounted.answers named blank member
    have entry := (find?_table sound.distinct _ found).2 member
    refine ⟨method, found.summary, known, written, ?_, ?_, answers⟩
    · rw [Result.effects, Table.find?_map, entry]
      rfl
    · rw [Result.receivers, Table.find?_map, entry]
      rfl
  have others : ∀ unit method, registry.method? unit = some method →
      unit ∉ progress.result.order → progress.summaries.of method = .unanalyzed method :=
    fun unit method known absent => blank.of_find?_eq named known (sound.untouched unit absent)
  cases ends with
  | finished idle free =>
      refine ⟨sound.distinct, first, processed, others, fun _ unit known => ?_, by simp⟩
      have apart := (sound.consistent.stuck?_eq_none_iff first idle).1 free unit
      rw [← sound.consistent.not_mem_iff first idle known, Classical.not_not] at apart
      exact apart
  | stuck idle waiting =>
      exact ⟨sound.distinct, first, processed, others, by simp, by simp⟩
  | lost ready refused =>
      obtain ⟨_, _, dispatched, _⟩ := process_cases sound.consistent ready
      cases refused.symm.trans dispatched
  | failed ready dispatched refused =>
      obtain ⟨method, known⟩ := Option.isSome_iff_exists.1
        ((sound.consistent.ready_iff _).1 ready).1
      obtain ⟨summaries, result, failure, rfl, admitted⟩ :=
        (sound.informed named blank ready known).failed sound.consistent ready dispatched
          known refused
      rw [← result] at first processed others
      rw [← summaries] at processed others
      refine ⟨result ▸ sound.distinct, first, processed, others, by simp, fun unit cause same => ?_⟩
      cases same
      exact ⟨failure, rfl, admitted⟩

end Ending

/-- Callees first, and never an unknown effect: an execution that starts with nothing
known dispatches a unit only when whatever it calls is known, records what it finds out,
and ends with the results of the processed units in their summaries. -/
theorem executions_known (program : Code.Program) {policy : Policy} {graph : Graph}
    (built : Graph.build (.ofProgram program) policy = .ok graph) {summaries : Summaries}
    (blank : Blank (.ofProgram program) summaries) :
    (∀ workers < 2, ∃ last, Executes (.ofProgram program) (.start graph summaries 0)
        (run (.ofProgram program) graph summaries workers).error last ∧
      (run (.ofProgram program) graph summaries workers).result = last.result ∧
      (run (.ofProgram program) graph summaries workers).summaries = last.summaries) ∧
    ∀ lastId,
      (∀ progress unit method,
        Relation.ReflTransGen (Step (.ofProgram program)) (.start graph summaries lastId) progress →
        progress.graph.ready.contains unit = true →
        Registry.method? (.ofProgram program) unit = some method →
        Informed (.ofProgram program) progress unit method) ∧
      ∀ error last, Executes (.ofProgram program) (.start graph summaries lastId) error last →
        Known (.ofProgram program) error last := by
  have named := Registry.named_ofProgram program
  refine ⟨fun workers few => executes_run _ graph summaries few, fun lastId => ?_⟩
  have begins := sound_start named built summaries lastId
  refine ⟨fun progress unit method steps ready known => ?_, fun error last executes => ?_⟩
  · exact (begins.steps named steps).informed named blank ready known
  · obtain ⟨middle, steps, ends⟩ := executes
    exact (begins.steps named steps).known named blank
      (calleesFirst_of_steps named begins steps) ends

/-- In the cellar everything is known at the end but the method that calls itself. -/
theorem executions_known_cellar :
    ∃ graph last,
      Graph.build (.ofProgram cellar) .unordered = .ok graph ∧
      Blank (.ofProgram cellar) ∅ ∧
      Executes (.ofProgram cellar) (.start graph ∅ 0) (some (.cycle looping)) last ∧
      last.result.order = [⟨"Cell", "peek"⟩, ⟨"Cell", "fill"⟩, ⟨"Cell", "both"⟩] ∧
      (∃ summary, last.summaries.find? ⟨"Cell", "both"⟩ = some summary ∧
        summary.receiver ≠ .unknown) ∧
      ∀ method, Registry.method? (.ofProgram cellar) ⟨"Cell", "loop"⟩ = some method →
        last.summaries.of method = .unanalyzed method := by
  obtain ⟨graph, last, built, executes, order⟩ := exists_executes_cellar
  have blank : Blank (.ofProgram cellar) ∅ := fun _ _ _ => rfl
  have known := ((executions_known cellar built blank).2 0).2 _ last executes
  obtain ⟨_, summary, _, written, _, _, answers⟩ :=
    known.processed ⟨"Cell", "both"⟩ (by rw [order]; decide)
  exact ⟨graph, last, built, blank, executes, order, ⟨summary, written, answers.receiver⟩,
    fun method found => known.others _ method found (by rw [order]; decide)⟩

end Schedule

end Custody
