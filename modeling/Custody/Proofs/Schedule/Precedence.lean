import Custody.Proofs.Data.Descent
import Custody.Proofs.Schedule.Execution

/-!
# Callees first

An execution processes every unit after all units that the unit calls, and it takes
as many units as it can: where it ends without a failure, the units that it has not
processed are those from which calls lead on for ever.
-/

namespace Custody

namespace Schedule

variable {registry : Registry} {unit : UnitId} {order : List UnitId}

/-- Every unit is one that may come after those before it. -/
def InTurn (allowed : List UnitId → UnitId → Prop) (order : List UnitId) : Prop :=
  ∀ before unit after, order = before ++ unit :: after → allowed before unit

section InTurn

variable {allowed : List UnitId → UnitId → Prop}

theorem inTurn_nil : InTurn allowed [] := by
  intro before unit after split
  cases List.append_eq_nil_iff.1 split.symm |>.2

theorem inTurn_concat_iff :
    InTurn allowed (order ++ [unit]) ↔ InTurn allowed order ∧ allowed order unit := by
  constructor
  · intro every
    refine ⟨fun before other after split => ?_, every order unit [] rfl⟩
    exact every before other (after ++ [unit]) (by rw [split, List.append_assoc, List.cons_append])
  · intro ⟨every, last⟩ before other after split
    rcases List.eq_nil_or_concat after with rfl | ⟨rest, final, rfl⟩
    · obtain ⟨rfl, same⟩ := List.append_inj' split rfl
      cases same
      exact last
    · have longer : order ++ [unit] = (before ++ other :: rest) ++ [final] := by simpa using split
      exact every before other rest (List.append_inj' longer rfl).1

end InTurn

/-- Every unit comes after all units that it calls. -/
def CalleesFirst (registry : Registry) (order : List UnitId) : Prop :=
  InTurn (Graph.Settled registry) order

theorem CalleesFirst.settled (first : CalleesFirst registry order) (listed : unit ∈ order) :
    Graph.Settled registry order unit := by
  obtain ⟨before, after, rfl⟩ := List.append_of_mem listed
  exact fun other calls => List.mem_append_left _ (first before unit after rfl other calls)

/-- Calls cannot be followed for ever within units that come after their callees. -/
theorem CalleesFirst.acc (first : CalleesFirst registry order) (listed : unit ∈ order) :
    Acc (Function.swap (Graph.Calls registry)) unit := by
  induction order using List.reverseRecOn generalizing unit with
  | nil => cases listed
  | append_singleton init last ih =>
      obtain ⟨earlier, settled⟩ := inTurn_concat_iff.1 first
      rcases List.mem_append.1 listed with inside | here
      · exact ih earlier inside
      · rw [List.mem_singleton.1 here]
        exact ⟨_, fun other calls => ih earlier (settled other calls)⟩

/-! ## Along an execution -/

variable {start : Summaries} {progress next last : Progress}

theorem CalleesFirst.step (first : CalleesFirst registry progress.result.order)
    (sound : Sound registry start progress) (step : Step registry progress next) :
    CalleesFirst registry next.result.order := by
  obtain ⟨unit, method, found, summary, adds⟩ := step.cases sound.consistent
  rw [adds.result, order_add]
  refine inTurn_concat_iff.2 ⟨first, fun other calls => ?_⟩
  exact List.mem_reverse.1 (adds.settled other calls)

theorem CalleesFirst.steps (first : CalleesFirst registry progress.result.order)
    (named : registry.Named) (sound : Sound registry start progress)
    (steps : Relation.ReflTransGen (Step registry) progress next) :
    CalleesFirst registry next.result.order := by
  induction steps with
  | refl => exact first
  | tail earlier step ih => exact ih.step (sound.steps named earlier) step

/-- However the units are chosen, callees come first. -/
theorem calleesFirst_of_steps (named : registry.Named) {graph : Graph} {lastId : Nat}
    (sound : Sound registry start (.start graph start lastId))
    (steps : Relation.ReflTransGen (Step registry) (.start graph start lastId) next) :
    CalleesFirst registry next.result.order := by
  have first : CalleesFirst registry (Progress.start graph start lastId).result.order := inTurn_nil
  exact first.steps named sound steps

/-- Fewer than two workers execute the graph as a whole. -/
theorem executes_run (registry : Registry) (graph : Graph) (summaries : Summaries)
    {workers : Int} (few : workers < 2) :
    ∃ last, Executes registry (.start graph summaries 0)
        (run registry graph summaries workers).error last ∧
      (run registry graph summaries workers).result = last.result ∧
      (run registry graph summaries workers).summaries = last.summaries := by
  have executes := executes_runGraph registry graph summaries 0
  simp only [run, if_pos few]
  exact ⟨_, executes, rfl, rfl⟩

end Schedule

/-! ## Units that are left -/

namespace Graph.Consistent

variable {registry : Registry} {graph : Graph} {unit : UnitId} {done order : List UnitId}

/-- Calls lead to units of the registry only, and these are finitely many. -/
theorem finite_callees (consistent : graph.Consistent registry done) (unit : UnitId) :
    {other | Relation.ReflTransGen (Calls registry) unit other}.Finite := by
  refine (List.finite_toSet (unit :: graph.nodes.keys)).subset fun other path => ?_
  cases path with
  | refl => exact List.mem_cons_self
  | tail _ calls =>
      have known := Describes.callees consistent calls
      rw [← Describes.isSome_iff consistent] at known
      exact List.mem_cons_of_mem _ (Table.mem_keys_iff.2 known)

/-- Where no unit is ready, every unit is done from which all calls come to an end. -/
theorem mem_of_acc (consistent : graph.Consistent registry done)
    (idle : graph.ready.isEmpty = true) (ends : Acc (Function.swap (Calls registry)) unit)
    (known : (registry.method? unit).isSome = true) : unit ∈ done := by
  induction ends with
  | intro unit _ ih =>
      refine Classical.byContradiction fun absent => ?_
      have ready : graph.ready.contains unit = true := by
        rw [consistent.ready_iff]
        refine ⟨known, absent, fun other calls => ?_⟩
        exact ih other calls (Describes.callees consistent calls)
      rw [KeySet.isEmpty_iff.1 idle unit] at ready
      cases ready

/-- Where no unit is ready, the units that are left are those that lead to a cycle of
calls. -/
theorem not_mem_iff (consistent : graph.Consistent registry order.reverse)
    (first : Schedule.CalleesFirst registry order) (idle : graph.ready.isEmpty = true)
    (known : (registry.method? unit).isSome = true) :
    unit ∉ order ↔ LeadsToCycle (Calls registry) unit := by
  rw [leadsToCycle_iff_not_acc (consistent.finite_callees unit)]
  refine not_congr ⟨first.acc, fun ends => ?_⟩
  exact List.mem_reverse.1 (consistent.mem_of_acc idle ends known)

end Graph.Consistent

end Custody
