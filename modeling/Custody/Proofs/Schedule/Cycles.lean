import Custody.Proofs.Schedule.Confluence
import Custody.Proofs.Schedule.Precedence

/-!
# Reports of cycles

An execution that runs out of ready units before all are processed reports the units
that are left.  These are the units from which calls lead to a cycle, each with the
callees that are left as well.
-/

namespace Custody

theorem Table.ascending_keys {κ α : Type} [Ord κ] (table : Table κ α) :
    table.keys.Pairwise fun left right => compare left right = .lt :=
  List.pairwise_map.2 table.ascending

/-- The units that lead to a cycle of calls, in order, each with those of its callees
that do so as well, in order. -/
structure CycleError.Exact (registry : Registry) (cycle : CycleError) : Prop where
  ascending : (cycle.stuck.map (·.unit)).Pairwise fun left right => compare left right = .lt
  units : ∀ unit, unit ∈ cycle.stuck.map (·.unit) ↔ LeadsToCycle (Graph.Calls registry) unit
  waitFor : ∀ entry ∈ cycle.stuck,
    (entry.waitFor.Pairwise fun left right => compare left right = .lt) ∧
      ∀ other, other ∈ entry.waitFor ↔
        Graph.Calls registry entry.unit other ∧ LeadsToCycle (Graph.Calls registry) other

namespace Graph

variable {registry : Registry} {graph : Graph} {order : List UnitId} {cycle : CycleError}

/-- Only a unit of the registry calls another. -/
theorem isSome_of_leadsToCycle {unit : UnitId} (leads : LeadsToCycle (Calls registry) unit) :
    (registry.method? unit).isSome = true := by
  obtain ⟨_, ⟨method, known, _⟩, _⟩ := leads.exists_next
  rw [known]
  rfl

namespace Consistent

variable (consistent : graph.Consistent registry order.reverse)
variable (first : Schedule.CalleesFirst registry order) (idle : graph.ready.isEmpty = true)

include consistent first idle

/-- Where no unit is ready, the units that are listed as not ready lead to a cycle. -/
theorem contains_notReady_iff (unit : UnitId) :
    graph.notReady.contains unit = true ↔ LeadsToCycle (Calls registry) unit := by
  rw [consistent.notReady_iff]
  constructor
  · intro ⟨known, absent, _⟩
    exact (consistent.not_mem_iff first idle known).1 (by simpa using absent)
  · intro leads
    have known := isSome_of_leadsToCycle leads
    have absent := (consistent.not_mem_iff first idle known).2 leads
    refine ⟨known, by simpa using absent, fun settled => absent ?_⟩
    have ready := KeySet.isEmpty_iff.1 idle unit
    rw [← Bool.not_eq_true, consistent.ready_iff] at ready
    exact (ready ⟨known, by simpa using absent, settled⟩).elim

/-- Where no unit is ready, a unit waits for those of its callees that lead to a cycle. -/
theorem contains_waitFor_iff {unit : UnitId} {node : GraphNode}
    (found : graph.nodes.find? unit = some node) (other : UnitId) :
    node.waitFor.contains other = true ↔
      Calls registry unit other ∧ LeadsToCycle (Calls registry) other := by
  rw [(Describes.fits consistent unit node found).waitFor]
  refine and_congr_right fun calls => ?_
  rw [← consistent.not_mem_iff first idle (Describes.callees consistent calls),
    List.mem_reverse]

theorem stuck?_eq_none_iff :
    graph.stuck? = none ↔ ∀ unit, ¬LeadsToCycle (Calls registry) unit := by
  have empty : graph.notReady.isEmpty = true ↔ ∀ unit, ¬LeadsToCycle (Calls registry) unit := by
    rw [KeySet.isEmpty_iff]
    refine forall_congr' fun unit => ?_
    rw [← consistent.contains_notReady_iff first idle unit, Bool.not_eq_true]
  rw [← empty, stuck?, idle, consistent.isEmpty_processing]
  simp

/-- Where no unit is ready, the report is exact. -/
theorem exact_stuck? (stuck : graph.stuck? = some cycle) : cycle.Exact registry := by
  unfold stuck? at stuck
  split at stuck
  next =>
    cases stuck
    have units : ∀ units : List UnitId, (units.map fun unit => (⟨unit,
        ((graph.nodes.find? unit).map (·.waitFor.toList)).getD []⟩ :
          StuckUnit)).map (·.unit) = units := fun units => by simp [Function.comp_def]
    refine ⟨?_, fun unit => ?_, fun entry listed => ?_⟩
    · rw [units]
      exact Table.ascending_keys _
    · rw [units]
      exact Table.mem_keys_iff.trans (consistent.contains_notReady_iff first idle unit)
    · obtain ⟨unit, waiting, rfl⟩ := List.mem_map.1 listed
      have left := Table.mem_keys_iff.1 waiting
      obtain ⟨node, found, _⟩ := Describes.exists_node consistent
        ((consistent.notReady_iff unit).1 left).1
      simp only [found, Option.map_some, Option.getD_some]
      refine ⟨Table.ascending_keys _, fun other => ?_⟩
      exact Table.mem_keys_iff.trans (consistent.contains_waitFor_iff first idle found other)
  next => cases stuck

end Consistent

end Graph

namespace Schedule

/-- Cycle reports are exact: an execution in which no unit fails leaves exactly the
units unprocessed that lead to a cycle of calls.  It succeeds if there are none, and
reports them with those they wait for if there are some. -/
theorem executes_reports_cycles (program : Code.Program) {policy : Policy} {graph : Graph}
    (built : Graph.build (.ofProgram program) policy = .ok graph) (summaries : Summaries) :
    (∀ workers < 2, ∃ last, Executes (.ofProgram program) (.start graph summaries 0)
        (run (.ofProgram program) graph summaries workers).error last ∧
      (run (.ofProgram program) graph summaries workers).result = last.result) ∧
    ∀ lastId error last,
      Executes (.ofProgram program) (.start graph summaries lastId) error last →
      (∀ failure, error ≠ some (.unit failure)) →
      (∀ unit, (Registry.method? (.ofProgram program) unit).isSome = true →
        (unit ∉ last.result.order ↔ LeadsToCycle (Graph.Calls (.ofProgram program)) unit)) ∧
      (error = none ↔ ∀ unit, ¬LeadsToCycle (Graph.Calls (.ofProgram program)) unit) ∧
      ∀ problem, error = some problem →
        ∃ cycle : CycleError, problem = .cycle cycle ∧ cycle.Exact (.ofProgram program) := by
  have named := Registry.named_ofProgram program
  refine ⟨fun workers few => ?_, fun lastId error last executes unfailing => ?_⟩
  · obtain ⟨last, executes, result, _⟩ := executes_run (.ofProgram program) graph summaries few
    exact ⟨last, executes, result⟩
  · obtain ⟨middle, steps, ends⟩ := executes
    have begins := sound_start named built summaries lastId
    have sound := begins.steps named steps
    have first := calleesFirst_of_steps named begins steps
    rcases ends.cases sound.consistent with ⟨idle, rfl, rfl⟩ | ⟨_, _, failure, rfl, _⟩
    · refine ⟨fun unit known => sound.consistent.not_mem_iff first idle known, ?_, ?_⟩
      · rw [Option.map_eq_none_iff, sound.consistent.stuck?_eq_none_iff first idle]
      · intro problem reported
        obtain ⟨cycle, stuck, rfl⟩ := Option.map_eq_some_iff.1 reported
        exact ⟨cycle, rfl, sound.consistent.exact_stuck? first idle stuck⟩
    · exact (unfailing failure rfl).elim

/-- In the cellar, the method that calls itself is all that is left. -/
theorem executes_reports_cycles_cellar :
    ∃ graph last,
      Graph.build (.ofProgram cellar) .unordered = .ok graph ∧
      Executes (.ofProgram cellar) (.start graph ∅ 0) (some (.cycle looping)) last ∧
      (∀ failure, some (Error.cycle looping) ≠ some (.unit failure)) ∧
      last.result.order = [⟨"Cell", "peek"⟩, ⟨"Cell", "fill"⟩, ⟨"Cell", "both"⟩] ∧
      LeadsToCycle (Graph.Calls (.ofProgram cellar)) ⟨"Cell", "loop"⟩ ∧
      ¬LeadsToCycle (Graph.Calls (.ofProgram cellar)) ⟨"Cell", "both"⟩ ∧
      looping.Exact (.ofProgram cellar) := by
  obtain ⟨graph, last, built, executes, order⟩ := exists_executes_cellar
  have unfailing : ∀ failure, some (Error.cycle looping) ≠ some (.unit failure) := by simp
  obtain ⟨units, _, report⟩ :=
    (executes_reports_cycles cellar built ∅).2 0 _ last executes unfailing
  have loop := units ⟨"Cell", "loop"⟩ (by decide +kernel)
  have both := units ⟨"Cell", "both"⟩ (by decide +kernel)
  rw [order] at loop both
  obtain ⟨cycle, ⟨⟩, exact⟩ := report _ rfl
  exact ⟨graph, last, built, executes, unfailing, order, loop.1 (by decide),
    not_congr both |>.1 (by decide), exact⟩

end Schedule

end Custody
