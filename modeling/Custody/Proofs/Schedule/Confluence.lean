import Custody.Proofs.Schedule.Execution
import Mathlib.Data.List.Induction

/-!
# The order of processing does not matter

What is found out about a unit depends on the summaries of the units that it calls,
and these are written before the unit is dispatched, whatever the order.  So two
executions find out the same about every unit that both of them process.  An
execution that runs out of ready units has processed every unit that another one
can process, and none of these fails.
-/

namespace Custody.Schedule

variable {registry : Registry} {unit : UnitId} {method : Method}

/-- The same has been found out about a unit, but for a distance between the
identifiers of its objects. -/
structure SameFindings (left right : Eval.Result) : Prop where
  effects : left.effects = right.effects
  receiver : left.receiver = right.receiver
  changes : left.changes = right.changes
  skipped : left.skipped = right.skipped
  heap : ∃ distance, right.heap = left.heap.map (.renumber distance) ∨
    left.heap = right.heap.map (.renumber distance)

theorem SameFindings.symm {left right : Eval.Result} (same : SameFindings left right) :
    SameFindings right left := by
  obtain ⟨distance, shifted⟩ := same.heap
  exact ⟨same.effects.symm, same.receiver.symm, same.changes.symm, same.skipped.symm, distance,
    shifted.symm⟩

theorem sameFindings_renumber (found : Eval.Result) (distance : Nat) :
    SameFindings found (found.renumber distance) :=
  ⟨rfl, rfl, rfl, rfl, distance, .inl rfl⟩

/-! ## Analyzing a unit twice -/

theorem concordant_of_calls {summaries others : Summaries} (named : registry.Named)
    (known : registry.method? unit = some method)
    (callees : ∀ other, Graph.Calls registry unit other →
      summaries.find? other = others.find? other) :
    Eval.Simulation.Concordant (.counting registry summaries method) others
      method.decl.nodes := by
  intro site member other callee names found
  have calls : Graph.Calls registry unit other := ⟨method, known, site, member, names⟩
  rw [Summaries.of, Summaries.of, named other callee found, callees other calls]

/-- A unit is analyzed alike with summaries that agree on the unit and on those it
calls. -/
theorem Analyzed.alike {summaries others : Summaries} {lastId : Nat} {found : Eval.Result}
    {summary : Summary} (analyzed : Analyzed registry summaries lastId method found summary)
    (named : registry.Named) (known : registry.method? unit = some method)
    (callees : ∀ other, Graph.Calls registry unit other →
      summaries.find? other = others.find? other)
    (own : summaries.find? unit = others.find? unit) (otherId : Nat) :
    ∃ other, Analyzed registry others otherId method other summary ∧
      SameFindings found other := by
  have old : others.of method = summaries.of method := by
    rw [Summaries.of, Summaries.of, named unit method known, own]
  -- The evaluation that starts with the larger identifier is the one that is moved.
  rcases Nat.le_total lastId otherId with less | less
  · have alike := Eval.run_alike (concordant_of_calls named known callees) lastId
      (otherId - lastId)
    rw [Nat.add_sub_cancel' less, analyzed.evaluated] at alike
    generalize ended : (Eval.run (.counting registry others method) otherId).result = outcome
      at alike
    cases alike
    exact ⟨_, ⟨ended, by rw [old]; exact analyzed.recorded⟩, sameFindings_renumber found _⟩
  · have concordant := concordant_of_calls named known fun other calls =>
      (callees other calls).symm
    have alike := Eval.run_alike concordant otherId (lastId - otherId)
    rw [Nat.add_sub_cancel' less, analyzed.evaluated] at alike
    generalize ended : (Eval.run (.counting registry others method) otherId).result = outcome
      at alike
    cases alike with
    | result other =>
        exact ⟨other, ⟨ended, by rw [old]; exact analyzed.recorded⟩,
          (sameFindings_renumber other _).symm⟩

theorem Analyzed.unique {summaries : Summaries} {lastId : Nat} {found other : Eval.Result}
    {summary another : Summary}
    (analyzed : Analyzed registry summaries lastId method found summary)
    (also : Analyzed registry summaries lastId method other another) :
    found = other ∧ summary = another := by
  cases analyzed.evaluated.symm.trans also.evaluated
  cases analyzed.recorded.symm.trans also.recorded
  exact ⟨rfl, rfl⟩

/-! ## Two executions -/

section Comparison

variable {start : Summaries} {left right next last : Progress}

/-- Two executions agree on every unit that both have processed. -/
def AgreeOnCommon (left right : Result) : Prop :=
  ∀ unit found other, (unit, found) ∈ left.units → (unit, other) ∈ right.units →
    SameFindings found other

/-- Two executions agree on the units that both have processed, and have written the
same about them. -/
structure Matches (left right : Progress) : Prop where
  findings : AgreeOnCommon left.result right.result
  summaries : ∀ unit, unit ∈ left.result.order → unit ∈ right.result.order →
    left.summaries.find? unit = right.summaries.find? unit

/-- A unit that both executions process is analyzed alike by both. -/
theorem Matches.analyzed (alike : Matches left right) (named : registry.Named)
    (first : Sound registry start left) (second : Sound registry start right)
    (known : registry.method? unit = some method)
    (settled : Graph.Settled registry left.result.order.reverse unit)
    (fresh : unit ∉ left.result.order) {other : Eval.Result}
    (listed : (unit, other) ∈ right.result.units) :
    ∃ found summary, Analyzed registry left.summaries left.lastId method found summary ∧
      SameFindings found other ∧ right.summaries.find? unit = some summary := by
  have processed : unit ∈ right.result.order := List.mem_map.2 ⟨_, listed, rfl⟩
  obtain ⟨account⟩ := second.accounts unit other listed
  cases known.symm.trans account.known
  have callees : ∀ third, Graph.Calls registry unit third →
      account.reading.find? third = left.summaries.find? third := by
    intro third calls
    rw [account.callees third calls]
    exact (alike.summaries third (by simpa using settled third calls)
      (second.settled unit processed third calls)).symm
  have own : account.reading.find? unit = left.summaries.find? unit :=
    account.own.trans (first.untouched unit fresh).symm
  obtain ⟨found, analyzed, same⟩ := account.analyzed.alike named known callees own left.lastId
  exact ⟨found, account.summary, analyzed, same.symm, account.written⟩

theorem Matches.step (alike : Matches left right) (named : registry.Named)
    (first : Sound registry start left) (second : Sound registry start right)
    (step : Step registry left next) : Matches next right := by
  obtain ⟨unit, method, found, summary, adds⟩ := step.cases first.consistent
  have fresh : unit ∉ left.result.order := by simpa using adds.fresh
  have written := adds.find?_summaries named
  have analyzed : ∀ other, (unit, other) ∈ right.result.units →
      SameFindings found other ∧ right.summaries.find? unit = some summary := by
    intro other listed
    obtain ⟨_, _, analyzed, same, summaries⟩ :=
      alike.analyzed named first second adds.known adds.settled fresh listed
    obtain ⟨rfl, rfl⟩ := analyzed.unique adds.analyzed
    exact ⟨same, summaries⟩
  refine ⟨fun third result other listed also => ?_, fun third processed also => ?_⟩
  · rw [adds.result] at listed
    rcases List.mem_append.1 listed with earlier | last
    · exact alike.findings third result other earlier also
    · cases List.mem_singleton.1 last
      exact (analyzed other also).1
  · rw [written]
    split
    next here =>
      subst here
      obtain ⟨⟨_, other⟩, listed, rfl⟩ := List.mem_map.1 also
      exact (analyzed other listed).2.symm
    next apart =>
      rw [adds.result, order_add, List.mem_append, List.mem_singleton] at processed
      exact alike.summaries third (processed.resolve_right apart) also

/-- Where no unit is ready, every unit that another execution can process has been
processed. -/
theorem Sound.mem_order (sound : Sound registry start right)
    (idle : right.graph.ready.isEmpty = true) (within : left.result.order ⊆ right.result.order)
    (known : registry.method? unit = some method)
    (settled : Graph.Settled registry left.result.order.reverse unit) :
    unit ∈ right.result.order := by
  refine Classical.byContradiction fun absent => ?_
  have ready : right.graph.ready.contains unit = true := by
    rw [sound.consistent.ready_iff]
    refine ⟨by simp [known], by simpa using absent, fun other calls => ?_⟩
    have processed := settled other calls
    rw [List.mem_reverse] at processed ⊢
    exact within processed
  rw [KeySet.isEmpty_iff.1 idle unit] at ready
  cases ready

/-- Where one execution has run out of ready units, another one cannot fail. -/
theorem Matches.not_refuses (alike : Matches left right) (named : registry.Named)
    (first : Sound registry start left) (second : Sound registry start right)
    (idle : right.graph.ready.isEmpty = true) (within : left.result.order ⊆ right.result.order)
    (refuses : Refuses registry left.result.order.reverse left unit method last) : False := by
  have processed := second.mem_order idle within refuses.known refuses.settled
  obtain ⟨⟨_, other⟩, listed, rfl⟩ := List.mem_map.1 processed
  obtain ⟨found, summary, analyzed, _⟩ := alike.analyzed named first second refuses.known
    refuses.settled (by simpa using refuses.fresh) listed
  exact refuses.unanalyzed found summary analyzed

variable {begin : Progress}

/-- Whatever is processed on one side has been found out alike on the other. -/
theorem matches_steps (named : registry.Named) (first : Sound registry start begin)
    (nothing : begin.result = .empty) (second : Sound registry start right)
    (steps : Relation.ReflTransGen (Step registry) begin left) : Matches left right := by
  induction steps with
  | refl =>
      refine ⟨fun unit found other listed => ?_, fun unit processed => ?_⟩
      · rw [nothing] at listed
        cases listed
      · rw [nothing] at processed
        cases processed
  | tail earlier step ih => exact ih.step named (first.steps named earlier) second step

/-- Where one execution has run out of ready units, it has processed all units that
another one has. -/
theorem subset_steps (named : registry.Named) (first : Sound registry start begin)
    (nothing : begin.result = .empty) (second : Sound registry start right)
    (idle : right.graph.ready.isEmpty = true)
    (steps : Relation.ReflTransGen (Step registry) begin left) :
    left.result.order ⊆ right.result.order := by
  induction steps with
  | refl =>
      rw [nothing]
      exact List.nil_subset _
  | tail earlier step ih =>
      obtain ⟨unit, method, found, summary, adds⟩ :=
        step.cases (first.steps named earlier).consistent
      rw [adds.result, order_add]
      refine List.append_subset.2 ⟨ih, fun other here => ?_⟩
      rw [List.mem_singleton.1 here]
      exact second.mem_order idle ih adds.known adds.settled

end Comparison

/-! ## Ends of executions -/

/-- Two executions have processed the same units and agree on them. -/
structure SameOutput (left right : Result) : Prop where
  units : left.order.Perm right.order
  effects : left.effects = right.effects
  receivers : left.receivers = right.receivers
  changes : left.changes = right.changes
  findings : AgreeOnCommon left right

/-- Two executions have ended in the same way. -/
inductive EndAlike (left right : Result) : Option Error → Option Error → Prop
  | finished (same : SameOutput left right) : EndAlike left right none none
  | stuck (cycle : CycleError) (same : SameOutput left right) :
      EndAlike left right (some (.cycle cycle)) (some (.cycle cycle))
  | failed (error other : UnitError) (findings : AgreeOnCommon left right) :
      EndAlike left right (some (.unit error)) (some (.unit other))

theorem find?_table {result : Result} (distinct : result.order.Nodup) (unit : UnitId)
    (found : Eval.Result) :
    result.table.find? unit = some found ↔ (unit, found) ∈ result.units := by
  obtain ⟨units⟩ := result
  unfold Result.table
  induction units using List.reverseRecOn with
  | nil => simp [Table.ofList]
  | append_singleton init last ih =>
      simp only [Result.order, List.map_append, List.nodup_append] at distinct
      have earlier := ih distinct.1
      have fresh : last.1 ∉ init.map (·.1) := fun member =>
        distinct.2.2 last.1 member last.1 (by simp) rfl
      simp only [Table.ofList, List.foldl_append, List.foldl_cons, List.foldl_nil] at earlier ⊢
      rw [Table.find?_insert, List.mem_append, List.mem_singleton]
      split
      next here =>
        cases Std.LawfulEqCmp.eq_of_compare here
        have absent : (last.1, found) ∉ init := fun member =>
          fresh (List.mem_map.2 ⟨_, member, rfl⟩)
        simp [absent, Prod.ext_iff, eq_comm]
      next apart =>
        have different : (unit, found) ≠ last := by
          rintro rfl
          simp at apart
        simp [earlier, different]

theorem sameOutput_of_perm {left right : Result} (distinct : left.order.Nodup)
    (units : left.order.Perm right.order) (findings : AgreeOnCommon left right) :
    SameOutput left right := by
  have alsoDistinct := units.nodup_iff.1 distinct
  have tables : ∀ {α : Type} (view : Eval.Result → α),
      (∀ {found other}, SameFindings found other → view found = view other) →
      left.table.map (fun _ found => view found) = right.table.map (fun _ found => view found) := by
    intro α view respects
    refine Table.ext fun unit => ?_
    rw [Table.find?_map, Table.find?_map]
    cases listed : left.table.find? unit with
    | some found =>
        have member := (find?_table distinct unit found).1 listed
        have processed : unit ∈ right.order := units.mem_iff.1 (List.mem_map.2 ⟨_, member, rfl⟩)
        obtain ⟨⟨_, other⟩, also, rfl⟩ := List.mem_map.1 processed
        rw [(find?_table alsoDistinct _ other).2 also]
        exact congrArg some (respects (findings _ found other member also))
    | none =>
        cases also : right.table.find? unit with
        | none => rfl
        | some other =>
            have member := (find?_table alsoDistinct unit other).1 also
            have processed : unit ∈ left.order :=
              units.mem_iff.2 (List.mem_map.2 ⟨_, member, rfl⟩)
            obtain ⟨⟨_, found⟩, earlier, rfl⟩ := List.mem_map.1 processed
            rw [(find?_table distinct _ found).2 earlier] at listed
            cases listed
  exact ⟨units, tables _ (·.effects), tables _ (·.receiver), tables _ (·.changes), findings⟩

/-- Two executions that start alike end alike. -/
theorem endAlike_of_executes {start : Summaries} {begin other last final : Progress}
    {error second : Option Error} (named : registry.Named)
    (sound : Sound registry start begin) (nothing : begin.result = .empty)
    (alsoSound : Sound registry start other) (nothingYet : other.result = .empty)
    (executes : Executes registry begin error last)
    (alsoExecutes : Executes registry other second final) :
    EndAlike last.result final.result error second := by
  obtain ⟨left, steps, ends⟩ := executes
  obtain ⟨right, alsoSteps, alsoEnds⟩ := alsoExecutes
  have leftSound := sound.steps named steps
  have rightSound := alsoSound.steps named alsoSteps
  have forth := matches_steps named sound nothing rightSound steps
  have back := matches_steps named alsoSound nothingYet leftSound alsoSteps
  rcases ends.cases leftSound.consistent with
    ⟨idle, rfl, rfl⟩ | ⟨unit, method, failure, rfl, refuses⟩ <;>
    rcases alsoEnds.cases rightSound.consistent with
      ⟨alsoIdle, rfl, rfl⟩ | ⟨rival, alsoMethod, alsoFailure, rfl, alsoRefuses⟩
  · -- Both have processed whatever can be processed.
    have within := subset_steps named sound nothing rightSound alsoIdle steps
    have around := subset_steps named alsoSound nothingYet leftSound idle alsoSteps
    have units : last.result.order.Perm final.result.order :=
      (List.perm_ext_iff_of_nodup leftSound.distinct rightSound.distinct).2 fun unit =>
        ⟨fun processed => within processed, fun processed => around processed⟩
    have same := sameOutput_of_perm leftSound.distinct units forth.findings
    have graphs : last.graph.stuck? = final.graph.stuck? :=
      Graph.Describes.stuck?_eq leftSound.consistent
        (rightSound.consistent.congr fun unit => by simp [units.mem_iff])
    rw [graphs]
    cases final.graph.stuck? with
    | none => exact .finished same
    | some cycle => exact .stuck cycle same
  · have around := subset_steps named alsoSound nothingYet leftSound idle alsoSteps
    exact (back.not_refuses named rightSound leftSound idle around alsoRefuses).elim
  · have within := subset_steps named sound nothing rightSound alsoIdle steps
    exact (forth.not_refuses named leftSound rightSound alsoIdle within refuses).elim
  · refine .failed failure alsoFailure ?_
    rw [refuses.kept, alsoRefuses.kept]
    exact forth.findings

/-- The result does not depend on the order: wherever a graph can be built, its run is
an execution, and any two executions end in the same way and agree on the units that
both have processed. -/
theorem executions_endAlike (program : Code.Program) {policy rivalPolicy : Policy}
    {graph rival : Graph} (built : Graph.build (.ofProgram program) policy = .ok graph)
    (rebuilt : Graph.build (.ofProgram program) rivalPolicy = .ok rival) (summaries : Summaries)
    (lastId rivalId : Nat) :
    Executes (.ofProgram program) (.start graph summaries lastId)
        (runGraph (.ofProgram program) .counting graph summaries lastId).1
        (runGraph (.ofProgram program) .counting graph summaries lastId).2 ∧
      ∀ error last rivalError rivalLast,
        Executes (.ofProgram program) (.start graph summaries lastId) error last →
        Executes (.ofProgram program) (.start rival summaries rivalId) rivalError rivalLast →
        EndAlike last.result rivalLast.result error rivalError := by
  have named := Registry.named_ofProgram program
  refine ⟨executes_runGraph _ graph summaries lastId, fun error last rivalError rivalLast => ?_⟩
  exact endAlike_of_executes named (sound_start named built summaries lastId) rfl
    (sound_start named rebuilt summaries rivalId) rfl

/-! ## A program in two orders -/

/-- Process units in a given order. -/
def follow (registry : Registry) : List UnitId → Progress → Option Progress
  | [], progress => some progress
  | unit :: rest, progress =>
      if progress.graph.ready.contains unit then
        match Graph.dispatch unit progress.graph with
        | .error _ _ => none
        | .ok () graph =>
            match process registry .counting unit { progress with graph } with
            | .error _ _ => none
            | .ok () next => follow registry rest next
      else none

theorem steps_of_follow {units : List UnitId} {progress last : Progress}
    (followed : follow registry units progress = some last) :
    Relation.ReflTransGen (Step registry) progress last := by
  induction units generalizing progress with
  | nil =>
      cases followed
      exact .refl
  | cons unit rest ih =>
      unfold follow at followed
      split at followed
      next ready =>
        split at followed
        next => cases followed
        next graph dispatched =>
          split at followed
          next => cases followed
          next next processed => exact .head ⟨unit, graph, ready, dispatched, processed⟩ (ih followed)
      next => cases followed

/-- Two methods that call nothing, one that calls both, and one that calls itself. -/
def cellar : Code.Program := ⟨[⟨0, "Cell", "", [⟨0, "Cell", ["next"]⟩],
  [.plain "fill" [.assign 1 (some ⟨1, Code.this, "next"⟩) (.new 1 "Cell" "" [])],
    .plain "peek" [.ret 2 [.reference ⟨2, Code.this, "next"⟩]],
    .plain "both" [.call 3 "" "fill" [], .call 4 "" "peek" []],
    .plain "loop" [.call 5 "" "loop" []]]⟩]⟩

/-- The method that calls itself waits for itself. -/
def looping : CycleError := ⟨[⟨⟨"Cell", "loop"⟩, [⟨"Cell", "loop"⟩]⟩]⟩

/-- Process the units of the cellar in a given order.  The answer is how they were
processed, and which units are ready or stuck then. -/
def rehearsal (units : List UnitId) : Option (List UnitId × Bool × Option CycleError) := do
  let graph ← (Graph.build (.ofProgram cellar) .unordered).toOption
  let last ← follow (.ofProgram cellar) units (.start graph ∅ 0)
  return (last.result.order, last.graph.ready.isEmpty, last.graph.stuck?)

theorem executes_of_rehearsal (units : List UnitId)
    (shown : rehearsal units = some (units, true, some looping)) {graph : Graph}
    (built : Graph.build (.ofProgram cellar) .unordered = .ok graph) :
    ∃ last, Executes (.ofProgram cellar) (.start graph ∅ 0) (some (.cycle looping)) last ∧
      last.result.order = units := by
  rw [rehearsal, built] at shown
  obtain ⟨_, ⟨⟩, rest⟩ := Option.bind_eq_some_iff.1 shown
  obtain ⟨last, followed, ended⟩ := Option.bind_eq_some_iff.1 rest
  obtain ⟨order, idle, waiting⟩ : last.result.order = units ∧
      last.graph.ready.isEmpty = true ∧ last.graph.stuck? = some looping := by
    simpa using ended
  exact ⟨last, ⟨last, steps_of_follow followed, .stuck idle waiting⟩, order⟩

/-- The cellar can be processed up to the method that calls itself. -/
theorem exists_executes_cellar :
    ∃ graph last,
      Graph.build (.ofProgram cellar) .unordered = .ok graph ∧
      Executes (.ofProgram cellar) (.start graph ∅ 0) (some (.cycle looping)) last ∧
      last.result.order = [⟨"Cell", "peek"⟩, ⟨"Cell", "fill"⟩, ⟨"Cell", "both"⟩] := by
  cases built : Graph.build (.ofProgram cellar) .unordered with
  | error error =>
      have builds : (Graph.build (.ofProgram cellar) .unordered).isOk = true := by decide +kernel
      rw [built] at builds
      cases builds
  | ok graph =>
      obtain ⟨last, executes, order⟩ := executes_of_rehearsal
        [⟨"Cell", "peek"⟩, ⟨"Cell", "fill"⟩, ⟨"Cell", "both"⟩] (by decide +kernel) built
      exact ⟨graph, last, rfl, executes, order⟩

theorem executions_endAlike_cellar :
    ∃ graph last rivalLast,
      Graph.build (.ofProgram cellar) .unordered = .ok graph ∧
      Executes (.ofProgram cellar) (.start graph ∅ 0) (some (.cycle looping)) last ∧
      Executes (.ofProgram cellar) (.start graph ∅ 0) (some (.cycle looping)) rivalLast ∧
      last.result.order = [⟨"Cell", "fill"⟩, ⟨"Cell", "peek"⟩, ⟨"Cell", "both"⟩] ∧
      rivalLast.result.order = [⟨"Cell", "peek"⟩, ⟨"Cell", "fill"⟩, ⟨"Cell", "both"⟩] ∧
      EndAlike last.result rivalLast.result (some (.cycle looping)) (some (.cycle looping)) := by
  obtain ⟨graph, rivalLast, built, also, rivalOrder⟩ := exists_executes_cellar
  obtain ⟨last, executes, order⟩ := executes_of_rehearsal
    [⟨"Cell", "fill"⟩, ⟨"Cell", "peek"⟩, ⟨"Cell", "both"⟩] (by decide +kernel) built
  exact ⟨graph, last, rivalLast, built, executes, also, order, rivalOrder,
    (executions_endAlike cellar built built ∅ 0 0).2 _ _ _ _ executes also⟩

end Custody.Schedule
