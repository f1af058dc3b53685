import Custody.Proofs.Graph.Standing

/-!
# Consistent graphs

While units are processed one after the other, the graph is determined by the
units that are done.  A unit waits for the units it calls that are not done; it is
ready once all of them are, whatever the order in which they were processed.
-/

namespace Custody

namespace Graph

/-- Some call site of one unit names another. -/
def Calls (registry : Registry) (unit other : UnitId) : Prop :=
  ∃ method, registry.method? unit = some method ∧
    ∃ site ∈ method.decl.nodes, site.callee registry method = .ok (some other)

variable {registry : Registry} {graph next : Graph} {unit other : UnitId} {done : List UnitId}

/-- All units that a unit calls are done. -/
def Settled (registry : Registry) (done : List UnitId) (unit : UnitId) : Prop :=
  ∀ other, Calls registry unit other → other ∈ done

theorem Settled.cons (settled : Settled registry done unit) (other : UnitId) :
    Settled registry (other :: done) unit :=
  fun third calls => .tail _ (settled third calls)

open Classical in
/-- The phase of a unit between two dispatches. -/
noncomputable def phaseAfter (registry : Registry) (done : List UnitId) (unit : UnitId) : Phase :=
  if unit ∈ done then .processed
  else if Settled registry done unit then .ready
  else .notReady

theorem phaseAfter_eq_ready_iff :
    phaseAfter registry done unit = .ready ↔ unit ∉ done ∧ Settled registry done unit := by
  unfold phaseAfter
  grind

theorem phaseAfter_eq_notReady_iff :
    phaseAfter registry done unit = .notReady ↔ unit ∉ done ∧ ¬Settled registry done unit := by
  unfold phaseAfter
  grind

theorem phaseAfter_ne_processing : phaseAfter registry done unit ≠ .processing := by
  unfold phaseAfter
  grind

/-- The graph stands as the units that are done have left it. -/
def Consistent (registry : Registry) (done : List UnitId) (graph : Graph) : Prop :=
  graph.Describes registry (Calls registry)
    (fun unit other => Calls registry unit other ∧ other ∉ done) (phaseAfter registry done)

namespace Consistent

theorem ready_iff (consistent : graph.Consistent registry done) (unit : UnitId) :
    graph.ready.contains unit = true ↔
      (registry.method? unit).isSome = true ∧ unit ∉ done ∧ Settled registry done unit := by
  rw [Describes.ready consistent, phaseAfter_eq_ready_iff]

theorem notReady_iff (consistent : graph.Consistent registry done) (unit : UnitId) :
    graph.notReady.contains unit = true ↔
      (registry.method? unit).isSome = true ∧ unit ∉ done ∧ ¬Settled registry done unit := by
  rw [Describes.notReady consistent, phaseAfter_eq_notReady_iff]

theorem isEmpty_processing (consistent : graph.Consistent registry done) :
    graph.processing.isEmpty = true := by
  rw [KeySet.isEmpty_iff]
  intro unit
  rw [← Bool.not_eq_true, Describes.processing consistent]
  exact fun both => phaseAfter_ne_processing both.2

/-- Only which units are done matters, not their order. -/
theorem congr {others : List UnitId} (consistent : graph.Consistent registry done)
    (same : ∀ unit, unit ∈ done ↔ unit ∈ others) : graph.Consistent registry others := by
  refine Describes.congr consistent (fun unit other _ => by rw [same]) fun unit _ => ?_
  have settled : Settled registry done unit ↔ Settled registry others unit := by
    simp only [Settled, same]
  unfold phaseAfter
  grind

/-- Once a unit is done, those that waited for it alone are ready. -/
theorem phaseAfter_cons (woken : List UnitId)
    (wakes : ∀ other, other ∈ woken ↔ Calls registry other unit ∧ other ≠ unit ∧
      phaseAfter registry done other = .notReady ∧
      ∀ third, Calls registry other third ∧ third ∉ done → third = unit) (other : UnitId) :
    (if other ∈ woken then .ready
      else Describes.moved (phaseAfter registry done) unit .processed other) =
      phaseAfter registry (unit :: done) other := by
  have settled : Settled registry (unit :: done) other ↔
      ∀ third, Calls registry other third ∧ third ∉ done → third = unit := by
    simp only [Settled, List.mem_cons]
    grind
  rw [Describes.moved]
  by_cases same : other = unit
  · subst same
    rw [if_neg fun listed => ((wakes other).1 listed).2.1 rfl, if_pos rfl]
    simp [phaseAfter]
  · rw [if_neg same]
    by_cases listed : other ∈ woken
    · obtain ⟨_, _, waiting, alone⟩ := (wakes other).1 listed
      rw [phaseAfter_eq_notReady_iff] at waiting
      rw [if_pos listed]
      symm
      rw [phaseAfter_eq_ready_iff]
      exact ⟨by simp [same, waiting.1], settled.2 alone⟩
    · rw [if_neg listed]
      unfold phaseAfter
      by_cases finished : other ∈ done
      · simp [finished]
      · have unfinished : other ∉ unit :: done := by simp [same, finished]
        rw [if_neg finished, if_neg unfinished]
        by_cases ready : Settled registry done other
        · rw [if_pos ready, if_pos (ready.cons unit)]
        · rw [if_neg ready, if_neg ?_]
          intro now
          refine listed ((wakes other).2 ⟨?_, same, ?_, settled.1 now⟩)
          · -- Something it calls is not done, and that can only be the unit.
            refine Classical.byContradiction fun never => ready fun third calls => ?_
            rcases List.mem_cons.1 (now third calls) with rfl | earlier
            · exact absurd calls never
            · exact earlier
          · exact phaseAfter_eq_notReady_iff.2 ⟨finished, ready⟩

/-- A ready unit can be dispatched and finished, and the units that this wakes up
become ready. -/
theorem advance (consistent : graph.Consistent registry done)
    (ready : graph.ready.contains unit = true) :
    ∃ middle events told next, Graph.dispatch unit graph = .ok () middle ∧
      (∃ node, middle.nodes.find? unit = some node ∧ node.method = registry.method? unit) ∧
      Graph.finish unit middle = .ok events told ∧ Graph.applyAll events told = .ok () next ∧
      next.Consistent registry (unit :: done) := by
  obtain ⟨present, undone, settled⟩ := (consistent.ready_iff unit).1 ready
  have isReady : phaseAfter registry done unit = .ready :=
    phaseAfter_eq_ready_iff.2 ⟨undone, settled⟩
  have follows : (phaseAfter registry done unit).next? = some .processing := by
    rw [isReady]
    rfl
  have dispatched := Describes.apply consistent present follows
  have middle := Describes.enter consistent present follows
  rw [isReady] at dispatched
  obtain ⟨events, told, next, woken, finished, applied, wakes, last⟩ :=
    middle.finish_applyAll present (if_pos rfl)
  refine ⟨graph.enter unit .processing, events, told, next, ?_, ?_, finished, applied, ?_⟩
  · simp only [Graph.dispatch, dispatched]
  · obtain ⟨node, found, _⟩ := middle.exists_node present
    obtain ⟨method, known, same⟩ := middle.method_of_find? found
    exact ⟨node, found, same.trans known.symm⟩
  · refine last.congr (fun other third _ => ?_) fun other _ => ?_
    · rw [List.mem_cons]
      grind
    · have twice : Describes.moved (Describes.moved (phaseAfter registry done) unit .processing) unit
          .processed = Describes.moved (phaseAfter registry done) unit .processed := by
        funext other
        simp only [Describes.moved]
        split <;> rfl
      rw [twice]
      refine phaseAfter_cons woken (fun other => ?_) other
      rw [wakes]
      simp only [Describes.moved]
      grind

end Consistent

end Graph

end Custody
