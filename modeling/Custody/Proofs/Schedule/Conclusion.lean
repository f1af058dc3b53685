import Custody.Proofs.Schedule.Parallel
import Custody.Proofs.Schedule.Recording

/-!
# Runs that come to a conclusion

A run in which no unit fails divides the units: those that lead to a cycle of calls are
reported as stuck, and all others are processed.  This is so whether the units are
processed one after the other or side by side.  What has been recorded about a processed
unit is what its evaluation has found out, whatever was recorded before.
-/

namespace Custody.Schedule

open Relation

variable {registry : Registry} {start : Summaries} {graph : Graph} {policy : Policy}

/-- What a run of a graph may come to: units are processed in some order, or the parts of
the graph are processed side by side. -/
inductive Outcome.Arises (registry : Registry) (graph : Graph) (start : Summaries) :
    Outcome → Prop
  | inTurn {lastId : Nat} {error : Option Error} {last : Progress}
      (executes : Executes registry (.start graph start lastId) error last) :
      Arises registry graph start ⟨last.result, error, last.summaries, last.log⟩
  | sideBySide {lastId : Nat} {floor : Floor}
      (steps : ReflTransGen (Floor.Step registry) (.start graph.components start lastId) floor)
      (done : floor.IsDone) : Arises registry graph start floor.outcome

theorem arises_run (registry : Registry) (graph : Graph) (start : Summaries) (workers : Int) :
    (run registry graph start workers).Arises registry graph start := by
  by_cases few : workers < 2
  · simp only [run, if_pos few]
    exact .inTurn (executes_runGraph registry graph start 0)
  · obtain ⟨floor, steps, done, same⟩ :=
      exists_interleaving registry graph start (Int.not_lt.1 few)
    rw [same]
    exact .sideBySide steps done

/-- No unit has failed. -/
def Outcome.IsUnfailed (outcome : Outcome) : Prop :=
  outcome.error = none ∨ ∃ cycle, outcome.error = some (.cycle cycle)

/-- Every unit has been processed or leads to a cycle, and the cycles are reported. -/
structure Outcome.Concludes (registry : Registry) (start : Summaries) (outcome : Outcome) :
    Prop where
  distinct : outcome.result.order.Nodup
  processed : ∀ unit, unit ∈ outcome.result.order ↔
    (registry.method? unit).isSome = true ∧ ¬LeadsToCycle (Graph.Calls registry) unit
  accounts : ∀ unit found, (unit, found) ∈ outcome.result.units →
    Nonempty (Account registry start outcome.summaries unit found)
  report : (outcome.error = none ∧ ∀ unit, ¬LeadsToCycle (Graph.Calls registry) unit) ∨
    ∃ cycle : CycleError, outcome.error = some (.cycle cycle) ∧ cycle.Exact registry

/-- An execution in which no unit fails comes to a conclusion. -/
theorem Sound.concludes {progress last : Progress} {error : Option Error}
    (sound : Sound registry start progress)
    (first : CalleesFirst registry progress.result.order)
    (ends : Ends registry progress error last)
    (unfailed : ∀ failure, error ≠ some (.unit failure)) (log : List Eval.LogEntry) :
    Outcome.Concludes registry start ⟨last.result, error, last.summaries, log⟩ := by
  rcases ends.cases sound.consistent with ⟨idle, rfl, rfl⟩ | ⟨_, _, failure, rfl, _⟩
  · refine ⟨sound.distinct, fun unit => ?_, sound.accounts, ?_⟩
    · constructor
      · intro listed
        obtain ⟨⟨_, found⟩, member, rfl⟩ := List.mem_map.1 listed
        obtain ⟨account⟩ := sound.accounts _ found member
        have known := Option.isSome_iff_exists.2 ⟨_, account.known⟩
        exact ⟨known, fun leads => (sound.consistent.not_mem_iff first idle known).2 leads listed⟩
      · rintro ⟨known, free⟩
        by_contra absent
        exact free ((sound.consistent.not_mem_iff first idle known).1 absent)
    · cases stuck : last.graph.stuck? with
      | none => exact .inl ⟨rfl, (sound.consistent.stuck?_eq_none_iff first idle).1 stuck⟩
      | some cycle => exact .inr ⟨cycle, rfl, sound.consistent.exact_stuck? first idle stuck⟩
  · exact (unfailed failure rfl).elim

/-- However the parts are interleaved, they come to the conclusion of the whole. -/
theorem Floor.Aligned.concludes {floor : Floor} {alone : Outcome}
    (aligned : floor.Aligned registry graph start) (done : floor.IsDone)
    (concludes : alone.Concludes registry start)
    (ends : EndsLike graph alone.result floor.outcome.result alone.error floor.outcome.error)
    (unfailed : ∀ failure, floor.outcome.error ≠ some (.unit failure)) :
    floor.outcome.Concludes registry start := by
  obtain ⟨same, errors⟩ : SameParts graph alone.result floor.outcome.result ∧
      floor.outcome.error = alone.error := by
    generalize alone.error = error, floor.outcome.error = reported at ends unfailed ⊢
    cases ends with
    | finished same => exact ⟨same, rfl⟩
    | stuck cycle same => exact ⟨same, rfl⟩
    | failed error other => exact (unfailed other rfl).elim
  refine ⟨same.units.nodup_iff.2 concludes.distinct, fun unit => ?_, fun unit found listed => ?_, ?_⟩
  · rw [same.units.mem_iff]
    exact concludes.processed unit
  · have rested := aligned.rested done fun worker member failure failed => by
      obtain ⟨error, reported⟩ := exists_outcome_failed aligned done ⟨worker, member, failure, failed⟩
      exact unfailed error reported
    obtain ⟨units, _⟩ := outcome_of_rested fun worker member => by
      obtain ⟨_, _, _, rested⟩ := exists_of_mem_left rested.flip member
      exact rested.error
    rw [units] at listed
    obtain ⟨worker, member, listed⟩ := List.mem_flatMap.1 listed
    obtain ⟨_, _, fits⟩ := exists_of_mem_left aligned.flip member
    exact Fits.accounts fits unit found listed
  · rw [errors]
    exact concludes.report

/-- Whatever a run comes to without a failure is a conclusion. -/
theorem Outcome.Arises.concludes {outcome : Outcome} (named : registry.Named)
    (built : Graph.build registry policy = .ok graph) (arises : outcome.Arises registry graph start)
    (unfailed : outcome.IsUnfailed) : outcome.Concludes registry start := by
  have consistent := Graph.consistent_build named built
  have other : ∀ failure, outcome.error ≠ some (.unit failure) := by
    intro failure failed
    rcases unfailed with finished | ⟨cycle, stuck⟩
    · cases finished.symm.trans failed
    · cases stuck.symm.trans failed
  cases arises with
  | @inTurn lastId error last executes =>
      obtain ⟨middle, steps, ends⟩ := executes
      have begins := sound_start named built start lastId
      exact (begins.steps named steps).concludes (calleesFirst_of_steps named begins steps) ends
        other last.log
  | @sideBySide lastId floor steps done =>
      obtain ⟨middle, alone, ends⟩ := executes_runGraph registry graph start 0
      have begins := sound_start named built start 0
      have sound := begins.steps named alone
      have aligned := (aligned_start consistent lastId).steps named steps
      have like := endsLike_of_ends named consistent sound ends
        (foremost_runGraph consistent start 0) aligned done
      have unfailing : ∀ failure,
          (runGraph registry .counting graph start 0).1 ≠ some (.unit failure) := by
        intro failure failed
        rw [failed] at like
        generalize floor.outcome.error = reported at like other
        cases like with
        | failed error rival => exact other rival rfl
      exact aligned.concludes done
        (sound.concludes (calleesFirst_of_steps named begins alone) ends unfailing []) like other

/-! ## What has been recorded -/

theorem refine_eq_ok {current effect next : Effect}
    (refined : current.refine effect.code = .ok next) : next = effect := by
  unfold Effect.refine at refined
  rw [Effect.ofCode?_code] at refined
  dsimp only at refined
  split at refined
  next => cases refined
  next =>
    split at refined
    next => cases refined
    next => exact (Except.ok.inj refined).symm

/-- Effects that have been recorded are the ones that were to be recorded. -/
theorem recorded_of_ok {unit : UnitId} (effects : String → Effect) {receiver : Effect}
    {params : List Code.Param} {old new : Summary}
    (recorded : recordUntilRefused
      ((params.map fun param (summary : Summary) =>
          summary.setParam unit param.name (effects param.name).code) ++
        [fun summary => summary.setReceiver unit receiver.code]) old = .ok () new) :
    new.receiver = receiver ∧ ∀ name, new.params.find? name =
      if name ∈ params.map (·.name) then some (effects name) else old.params.find? name := by
  induction params generalizing old with
  | nil =>
      simp only [List.map_nil, List.nil_append, recordUntilRefused, Summary.setReceiver] at recorded
      split at recorded
      next summary written =>
        cases recorded
        split at written
        next effect refined =>
          cases written
          exact ⟨refine_eq_ok refined, fun name => by simp⟩
        next => cases written
      next => cases recorded
  | cons param rest ih =>
      rw [List.map_cons, List.cons_append, recordUntilRefused] at recorded
      dsimp only at recorded
      split at recorded
      next summary written =>
        obtain ⟨same, entries⟩ := ih recorded
        refine ⟨same, fun name => ?_⟩
        rw [entries]
        unfold Summary.setParam at written
        split at written
        next => cases written
        next current _ =>
          split at written
          next effect refined =>
            cases written
            rw [refine_eq_ok refined]
            simp only [List.map_cons, List.mem_cons, Table.find?_insert,
              Std.LawfulEqCmp.compare_eq_iff_eq]
            by_cases here : name = param.name
            · simp [here]
            · simp [here]
          next => cases written
      next => cases recorded

/-- What is recorded about a processed unit is what was found out. -/
theorem Account.recorded {summaries : Summaries} {unit : UnitId} {found : Eval.Result}
    (account : Account registry start summaries unit found) (named : registry.Named) :
    (summaries.of account.method).receiver = found.receiver ∧
      ∀ param ∈ account.method.params, ∃ effect, effect ≠ .unknown ∧
        found.effects.find? param.name = some effect ∧
        (summaries.of account.method).params.find? param.name = some effect := by
  have answers := Eval.answers_of_run account.analyzed.evaluated
  obtain ⟨receiver, params⟩ := recorded_of_ok
    (fun name => (found.effects.find? name).getD .unknown) account.analyzed.recorded
  rw [Summaries.of, named _ _ account.known, account.written, Option.getD_some]
  refine ⟨receiver, fun param member => ?_⟩
  have listed : param.name ∈ account.method.params.map (·.name) := List.mem_map.2 ⟨param, member, rfl⟩
  obtain ⟨effect, said⟩ := Option.isSome_iff_exists.1 ((answers.params param.name).2 listed)
  refine ⟨effect, answers.effects _ _ said, said, ?_⟩
  rw [params, if_pos listed]
  exact congrArg (fun told => some (told.getD .unknown)) said

end Custody.Schedule
