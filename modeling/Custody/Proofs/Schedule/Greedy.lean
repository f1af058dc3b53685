import Custody.Proofs.Graph.Parts
import Custody.Proofs.Schedule.Cycles

/-!
# Taking the least unit

The run of a graph always takes the least unit that is ready.  This determines the
order of the units, and within a part of the graph it determines the order of the units
of the part: whatever happens in other parts, the next unit of a part is the least one
that is ready there.
-/

namespace Custody.Schedule

variable {registry : Registry} {unit : UnitId} {order others : List UnitId}

/-- The unit can be dispatched after some others. -/
def Eligible (registry : Registry) (done : List UnitId) (unit : UnitId) : Prop :=
  (registry.method? unit).isSome = true ∧ unit ∉ done ∧ Graph.Settled registry done unit

/-- The unit is the least one that can be dispatched after some others. -/
def Foremost (registry : Registry) (done : List UnitId) (unit : UnitId) : Prop :=
  Eligible registry done unit ∧
    ∀ other, Eligible registry done other → compare other unit ≠ .lt

theorem Foremost.unique {done : List UnitId} {other : UnitId}
    (first : Foremost registry done unit) (second : Foremost registry done other) :
    unit = other := by
  have below := second.2 unit first.1
  have above := first.2 other second.1
  cases compared : compare unit other with
  | eq => exact Std.LawfulEqCmp.eq_of_compare compared
  | lt => exact (below compared).elim
  | gt => exact (above (Std.OrientedCmp.lt_of_gt compared)).elim

/-- Always taking the least unit leaves no choice. -/
theorem InTurn.eq_of_foremost (first : InTurn (Foremost registry) order)
    (second : InTurn (Foremost registry) others) (size : order.length = others.length) :
    order = others := by
  induction order using List.reverseRecOn generalizing others with
  | nil => exact (List.length_eq_zero_iff.1 size.symm).symm
  | append_singleton init last ih =>
      rcases List.eq_nil_or_concat others with rfl | ⟨rest, final, rfl⟩
      · simp at size
      · rw [List.concat_eq_append] at second size ⊢
        obtain ⟨earlier, least⟩ := inTurn_concat_iff.1 first
        obtain ⟨before, also⟩ := inTurn_concat_iff.1 second
        have same := ih earlier before (by simpa using size)
        subst same
        rw [least.unique also]

/-- Within units that call each other only, the order is that of taking the least of
these. -/
theorem InTurn.filter (every : InTurn (Foremost registry) order) {keep : UnitId → Bool}
    (closed : ∀ {unit other}, Graph.Calls registry unit other → keep unit = true →
      keep other = true) :
    InTurn (Foremost (registry.restrict keep)) (order.filter keep) := by
  intro before unit after split
  obtain ⟨front, back, whole, listed, tail⟩ := List.filter_eq_append_iff.1 split
  obtain ⟨gap, rest, same, skipped, kept, _⟩ := List.filter_eq_cons_iff.1 tail
  have prior : (front ++ gap).filter keep = before := by
    rw [List.filter_append, listed, List.filter_eq_nil_iff.2 skipped, List.append_nil]
  obtain ⟨⟨known, fresh, settled⟩, least⟩ := every (front ++ gap) unit rest (by simp [whole, same])
  have within : ∀ other, other ∈ before ↔ other ∈ front ++ gap ∧ keep other = true := by
    intro other
    rw [← prior, List.mem_filter]
  refine ⟨⟨?_, fun member => fresh ((within unit).1 member).1, ?_⟩, fun other eligible => ?_⟩
  · rw [Registry.method?_restrict]
    simpa [kept] using known
  · rw [Graph.settled_restrict_iff kept]
    exact fun other calls => (within other).2 ⟨settled other calls, closed calls kept⟩
  · obtain ⟨known, fresh, settled⟩ := eligible
    rw [Registry.method?_restrict] at known
    obtain ⟨method, present⟩ := Option.isSome_iff_exists.1 known
    obtain ⟨present, keeps⟩ := Option.filter_eq_some_iff.1 present
    rw [Graph.settled_restrict_iff keeps] at settled
    refine least other ⟨by rw [present]; rfl, fun member => ?_, fun third calls => ?_⟩
    · exact fresh ((within other).2 ⟨member, keeps⟩)
    · exact ((within third).1 (settled third calls)).1

section Facts

variable (every : InTurn (Foremost registry) order)

include every

theorem InTurn.calleesFirst : CalleesFirst registry order :=
  fun before unit after split => (every before unit after split).1.2.2

theorem InTurn.isSome_method? (listed : unit ∈ order) : (registry.method? unit).isSome = true := by
  obtain ⟨before, after, split⟩ := List.append_of_mem listed
  exact (every before unit after split).1.1

theorem InTurn.nodup : order.Nodup := by
  induction order using List.reverseRecOn with
  | nil => exact List.nodup_nil
  | append_singleton init last ih =>
      obtain ⟨earlier, least⟩ := inTurn_concat_iff.1 every
      rw [← List.concat_eq_append]
      exact (ih earlier).concat least.1.2.1

end Facts

/-! ## The run of a graph -/

/-- The unit that is dispatched next is the least one that is ready. -/
theorem nextReady_cases {graph : Graph} {done : List UnitId}
    (consistent : graph.Consistent registry done) :
    (graph.ready.isEmpty = true ∧ Graph.nextReady graph = .ok none graph) ∨
      ∃ unit after, graph.ready.contains unit = true ∧
        Graph.dispatch unit graph = .ok () after ∧
        Graph.nextReady graph = .ok (some unit) after ∧ Foremost registry done unit := by
  rw [Graph.nextReady_eq]
  cases listed : graph.ready.keys with
  | nil =>
      have empty : graph.ready.entries = [] := List.map_eq_nil_iff.1 listed
      exact .inl ⟨by rw [Table.isEmpty, empty]; rfl, rfl⟩
  | cons unit rest =>
      have ready : graph.ready.contains unit = true := Table.mem_keys_iff.1 (by simp [listed])
      obtain ⟨after, _, _, _, dispatched, _⟩ := consistent.advance ready
      refine .inr ⟨unit, after, ready, dispatched, by simp [dispatched],
        (consistent.ready_iff unit).1 ready, fun other eligible => ?_⟩
      have among := Table.mem_keys_iff.2 ((consistent.ready_iff other).2 eligible)
      have ascending := graph.ready.ascending_keys
      rw [listed] at among ascending
      rcases List.mem_cons.1 among with rfl | later
      · simp
      · rw [Std.OrientedCmp.gt_of_lt ((List.pairwise_cons.1 ascending).1 other later)]
        simp

/-- The run of a graph always takes the least unit. -/
theorem foremost_processAll (progress : Progress)
    (consistent : progress.graph.Consistent registry progress.result.order)
    (foremost : InTurn (Foremost registry) progress.result.order) :
    InTurn (Foremost registry) (ending (processAll registry .counting progress)).result.order := by
  fun_induction processAll registry .counting progress with
  | case1 | case2 | case3 => exact foremost
  | case4 progress unit graph dispatched error last refused =>
      obtain ⟨_, none⟩ | ⟨_, _, ready, sent, same, _⟩ := nextReady_cases consistent
      · cases dispatched.symm.trans none
      · cases dispatched.symm.trans same
        obtain ⟨_, _, also, ⟨_, _, _, processed, _⟩ | ⟨_, _, failed, refuses⟩⟩ :=
          process_cases consistent ready
        · cases sent.symm.trans also
          cases refused.symm.trans processed
        · cases sent.symm.trans also
          cases refused.symm.trans failed
          rw [ending_error, refuses.kept]
          exact foremost
  | case5 progress unit graph dispatched next processed _ ih =>
      obtain ⟨_, none⟩ | ⟨_, _, ready, sent, same, least⟩ := nextReady_cases consistent
      · cases dispatched.symm.trans none
      · cases dispatched.symm.trans same
        obtain ⟨_, _, also, ⟨_, _, _, done, adds⟩ | ⟨_, _, failed, _⟩⟩ :=
          process_cases consistent ready
        · cases sent.symm.trans also
          cases processed.symm.trans done
          refine ih (adds.consistent.congr fun other => ?_) ?_
          · rw [adds.result, order_add, List.mem_cons, List.mem_append, List.mem_singleton,
              or_comm]
          · rw [adds.result, order_add]
            exact inTurn_concat_iff.2 ⟨foremost, least⟩
        · cases sent.symm.trans also
          cases processed.symm.trans failed

theorem foremost_runGraph {graph : Graph} (consistent : graph.Consistent registry [])
    (summaries : Summaries) (lastId : Nat) :
    InTurn (Foremost registry)
      (runGraph registry .counting graph summaries lastId).2.result.order := by
  have foremost := @foremost_processAll registry ⟨graph, summaries, lastId, [], .empty⟩ consistent
    inTurn_nil
  unfold runGraph
  cases ended : processAll registry .counting ⟨graph, summaries, lastId, [], .empty⟩ with
  | ok _ last =>
      rw [ended] at foremost
      exact foremost
  | error error last =>
      rw [ended] at foremost
      exact foremost

end Custody.Schedule
