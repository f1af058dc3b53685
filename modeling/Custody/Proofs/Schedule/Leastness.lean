import Custody.Proofs.Schedule.Confluence
import Custody.Proofs.Schedule.Greedy
import Custody.Proofs.Schedule.Recording

/-!
# The least order

There are many orders in which callees come before their callers.  The run of a graph
finds the one that comes first in the order of lists: where another order departs from
that of the run, the unit that it takes there could have been dispatched by the run as
well, and the run took the least.
-/

namespace Custody.Schedule

variable {registry : Registry} {order others : List UnitId}

/-- Taking the least unit each time is at most as late as taking any that may come
next, whatever both have taken before. -/
theorem isLE_compare_of_foremost (before : List UnitId)
    (every : InTurn (Foremost registry) (before ++ order))
    (first : CalleesFirst registry (before ++ others)) (once : (before ++ others).Nodup)
    (known : ∀ unit ∈ others, (registry.method? unit).isSome = true)
    (size : order.length ≤ others.length) : (compare order others).isLE = true := by
  induction order generalizing before others with
  | nil =>
      rw [List.compare_eq_compareLex]
      exact List.isLE_compareLex_nil_left
  | cons unit rest ih =>
      cases others with
      | nil => cases size
      | cons other left =>
          have fresh : other ∉ before := fun member =>
            (List.disjoint_of_nodup_append once) member List.mem_cons_self
          have eligible : Eligible registry before other :=
            ⟨known other List.mem_cons_self, fresh, first before other left rfl⟩
          have least := (every before unit rest rfl).2 other eligible
          rw [List.compare_eq_compareLex, List.compareLex_cons_cons]
          cases compared : compare unit other with
          | lt => rfl
          | gt => exact (least (Std.OrientedCmp.lt_of_gt compared)).elim
          | eq =>
              have same : unit = other := Std.LawfulEqCmp.eq_of_compare compared
              subst same
              rw [List.append_cons] at every first once
              exact ih (before ++ [unit]) every first once
                (fun unit member => known unit (List.mem_cons_of_mem _ member))
                (Nat.le_of_succ_le_succ size)

/-- The order of a run is the least of all that take the same units once each and
callees first. -/
theorem run_order_least (program : Code.Program) {graph : Graph}
    (built : Graph.build (.ofProgram program) .lexicographic = .ok graph) (summaries : Summaries)
    {workers : Int} (few : workers < 2) :
    (run (.ofProgram program) graph summaries workers).result.order.Nodup ∧
      CalleesFirst (.ofProgram program)
        (run (.ofProgram program) graph summaries workers).result.order ∧
      ∀ others, others.Perm (run (.ofProgram program) graph summaries workers).result.order →
        CalleesFirst (.ofProgram program) others →
        (compare (run (.ofProgram program) graph summaries workers).result.order others).isLE
          = true := by
  have consistent := Graph.consistent_build (Registry.named_ofProgram program) built
  have every : InTurn (Foremost (.ofProgram program))
      (run (.ofProgram program) graph summaries workers).result.order := by
    simp only [run, if_pos few]
    exact foremost_runGraph consistent summaries 0
  refine ⟨every.nodup, every.calleesFirst, fun others same first => ?_⟩
  exact isLE_compare_of_foremost [] every first (same.nodup_iff.2 every.nodup)
    (fun unit member => every.isSome_method? (same.mem_iff.1 member)) same.length_eq.ge

/-- Peeking into the cellar first is another order, and not the least. -/
theorem run_order_least_cellar :
    ∃ graph, Graph.build (.ofProgram cellar) .lexicographic = .ok graph ∧
      (run (.ofProgram cellar) graph ∅ 1).error = some (.cycle looping) ∧
      (run (.ofProgram cellar) graph ∅ 1).result.order =
        [⟨"Cell", "fill"⟩, ⟨"Cell", "peek"⟩, ⟨"Cell", "both"⟩] ∧
      CalleesFirst (.ofProgram cellar)
        [⟨"Cell", "peek"⟩, ⟨"Cell", "fill"⟩, ⟨"Cell", "both"⟩] ∧
      (compare (run (.ofProgram cellar) graph ∅ 1).result.order
        [⟨"Cell", "peek"⟩, ⟨"Cell", "fill"⟩, ⟨"Cell", "both"⟩]).isLE = true := by
  have shown : ((Graph.build (.ofProgram cellar) .lexicographic).toOption.map fun graph =>
      ((run (.ofProgram cellar) graph ∅ 1).result.order,
        (run (.ofProgram cellar) graph ∅ 1).error)) =
      some ([⟨"Cell", "fill"⟩, ⟨"Cell", "peek"⟩, ⟨"Cell", "both"⟩], some (.cycle looping)) := by
    decide +kernel
  cases built : Graph.build (.ofProgram cellar) .lexicographic with
  | error error =>
      rw [built] at shown
      cases shown
  | ok graph =>
      rw [built] at shown
      simp only [Except.toOption, Option.map_some, Option.some.injEq, Prod.mk.injEq] at shown
      obtain ⟨order, error⟩ := shown
      have rival : CalleesFirst (.ofProgram cellar)
          [⟨"Cell", "peek"⟩, ⟨"Cell", "fill"⟩, ⟨"Cell", "both"⟩] := by
        obtain ⟨rivalGraph, last, rivalBuilt, ⟨_, steps, ends⟩, listed⟩ := exists_executes_cellar
        have named := Registry.named_ofProgram cellar
        have begins := sound_start named rivalBuilt ∅ 0
        have known := (begins.steps named steps).known named (fun _ _ _ => rfl)
          (calleesFirst_of_steps named begins steps) ends
        exact listed ▸ known.calleesFirst
      refine ⟨graph, rfl, error, order, rival, ?_⟩
      refine (run_order_least cellar built ∅ (by decide)).2.2 _ ?_ rival
      rw [order]
      exact List.Perm.swap _ _ _

end Custody.Schedule
