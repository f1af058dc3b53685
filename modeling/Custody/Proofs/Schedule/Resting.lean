import Custody.Proofs.Data.Partition
import Custody.Proofs.Schedule.Workers

/-!
# Workers at their end

A worker that has come to its end without a failure has done in its part what a run of
the whole graph does there: it has processed the same units in the same order, and the
same units are stuck.  The findings on a unit depend on those on the units that it calls
and on nothing else, so they are the same as well, and where a unit of the part fails, it
fails in the whole.
-/

namespace Custody

open Relation

/-! ## Cycles of the parts -/

namespace CycleError

variable {registry : Registry} {keep : UnitId → Bool} {stuck : List StuckUnit}

theorem Exact.unique {others : List StuckUnit} (first : Exact registry ⟨stuck⟩)
    (second : Exact registry ⟨others⟩) : stuck = others := by
  have within : ∀ {one other : List StuckUnit}, Exact registry ⟨one⟩ → Exact registry ⟨other⟩ →
      ∀ entry ∈ one, entry ∈ other := by
    intro one other exact also entry listed
    have leads := (exact.units entry.unit).1 (List.mem_map.2 ⟨entry, listed, rfl⟩)
    obtain ⟨twin, present, same⟩ := List.mem_map.1 ((also.units entry.unit).2 leads)
    have waits : twin.waitFor = entry.waitFor := by
      refine eq_of_ascending (also.waitFor twin present).1 (exact.waitFor entry listed).1 ?_
      intro callee
      rw [(also.waitFor twin present).2, (exact.waitFor entry listed).2, same]
    obtain ⟨unit, waitFor⟩ := entry
    obtain ⟨_, _⟩ := twin
    cases same
    cases waits
    exact present
  exact eq_of_ascending (List.pairwise_map.1 first.ascending) (List.pairwise_map.1 second.ascending)
    fun entry => ⟨within first second entry, within second first entry⟩

/-- Put in order again, the stuck units are those of an exact report. -/
theorem Exact.mergeSort_eq (exact : Exact registry ⟨stuck⟩) {others : List StuckUnit}
    (same : others.Perm stuck) :
    (others.mergeSort fun left right => (compare left.unit right.unit).isLE) = stuck := by
  have ascending := List.pairwise_map.1 exact.ascending
  have distinct : (stuck.map (·.unit)).Nodup := exact.ascending.imp fun {one other} less => by
    rintro rfl
    simp at less
  have total : ∀ left right : StuckUnit,
      ((compare left.unit right.unit).isLE || (compare right.unit left.unit).isLE) = true := by
    intro left right
    cases compared : compare left.unit right.unit with
    | gt => simp [Std.OrientedCmp.lt_of_gt compared]
    | lt | eq => simp
  have sorted := List.pairwise_mergeSort (fun _ _ _ => Std.TransCmp.isLE_trans) total others
  have perm := (List.mergeSort_perm others
    fun left right => (compare left.unit right.unit).isLE).trans same
  refine perm.eq_of_pairwise (fun one other listed also below above => ?_) sorted
    (ascending.imp fun less => by simp [less])
  refine List.inj_on_of_nodup_map distinct (perm.mem_iff.1 listed) also ?_
  exact Std.LawfulEqCmp.eq_of_compare (Std.OrientedCmp.isLE_antisymm below above)

end CycleError

namespace Graph

variable {registry : Registry} {keep : UnitId → Bool} {unit : UnitId}

section Closed

variable (closed : ∀ {unit other}, Calls registry unit other → keep unit = true →
  keep other = true)

include closed

/-- A unit of a part leads to a cycle of the part. -/
theorem leadsToCycle_restrict_iff :
    LeadsToCycle (Calls (registry.restrict keep)) unit ↔
      LeadsToCycle (Calls registry) unit ∧ keep unit = true := by
  constructor
  · intro leads
    obtain ⟨_, first, _⟩ := leads.exists_next
    obtain ⟨point, path, cycle⟩ := leads
    have weaken : Calls (registry.restrict keep) ≤ Calls registry :=
      fun _ _ calls => (calls_restrict_iff.1 calls).1
    exact ⟨⟨point, ReflTransGen.mono weaken _ _ path, TransGen.mono weaken _ _ cycle⟩,
      (calls_restrict_iff.1 first).2⟩
  · intro ⟨⟨point, path, cycle⟩, kept⟩
    have forward : ∀ {one other}, keep one = true → ReflTransGen (Calls registry) one other →
        ReflTransGen (Calls (registry.restrict keep)) one other ∧ keep other = true := by
      intro one other kept path
      induction path with
      | refl => exact ⟨.refl, kept⟩
      | tail _ calls ih =>
          exact ⟨ih.1.tail (calls_restrict_iff.2 ⟨calls, ih.2⟩), closed calls ih.2⟩
    obtain ⟨path, kept⟩ := forward kept path
    obtain ⟨next, first, rest⟩ := TransGen.head'_iff.1 cycle
    obtain ⟨rest, _⟩ := forward (closed first kept) rest
    exact ⟨point, path, TransGen.head'_iff.2 ⟨next, calls_restrict_iff.2 ⟨first, kept⟩, rest⟩⟩

/-- Of an exact report, the entries of a part are an exact report for the part. -/
theorem exact_filter {stuck : List StuckUnit} (exact : CycleError.Exact registry ⟨stuck⟩) :
    CycleError.Exact (registry.restrict keep) ⟨stuck.filter fun entry => keep entry.unit⟩ := by
  refine ⟨?_, fun unit => ?_, fun entry listed => ?_⟩
  · exact List.pairwise_map.2 ((List.pairwise_map.1 exact.ascending).filter _)
  · rw [leadsToCycle_restrict_iff closed, ← exact.units]
    simp only [List.mem_map, List.mem_filter]
    constructor
    · rintro ⟨entry, ⟨listed, kept⟩, rfl⟩
      exact ⟨⟨entry, listed, rfl⟩, kept⟩
    · rintro ⟨⟨entry, listed, rfl⟩, kept⟩
      exact ⟨entry, ⟨listed, kept⟩, rfl⟩
  · obtain ⟨listed, kept⟩ := List.mem_filter.1 listed
    obtain ⟨ascending, waits⟩ := exact.waitFor entry listed
    refine ⟨ascending, fun other => ?_⟩
    rw [waits, calls_restrict_iff, leadsToCycle_restrict_iff closed]
    constructor
    · exact fun ⟨calls, leads⟩ => ⟨⟨calls, kept⟩, leads, closed calls kept⟩
    · exact fun ⟨calls, leads⟩ => ⟨calls.1, leads.1⟩

end Closed

/-- The units that wait for each other, if no unit is ready. -/
def stuckUnits (graph : Graph) : List StuckUnit := (graph.stuck?.map (·.stuck)).getD []

theorem stuck?_eq_ite (graph : Graph) :
    graph.stuck? = if graph.stuckUnits.isEmpty then none else some ⟨graph.stuckUnits⟩ := by
  unfold stuckUnits
  cases stuck : graph.stuck? with
  | none => rfl
  | some cycle =>
      unfold stuck? at stuck
      split at stuck
      next waiting =>
        cases stuck
        have present : graph.notReady.entries ≠ [] := by
          simp only [Bool.and_eq_true, Bool.not_eq_true', Table.isEmpty,
            List.isEmpty_eq_false_iff] at waiting
          exact waiting.2
        simp [KeySet.toList, Table.keys, present]
      next => cases stuck

theorem Consistent.exact_stuckUnits {graph : Graph} {order : List UnitId}
    (consistent : graph.Consistent registry order.reverse)
    (first : Schedule.CalleesFirst registry order) (idle : graph.ready.isEmpty = true) :
    CycleError.Exact registry ⟨graph.stuckUnits⟩ := by
  unfold stuckUnits
  cases stuck : graph.stuck? with
  | some cycle => exact consistent.exact_stuck? first idle stuck
  | none =>
      have acyclic := (consistent.stuck?_eq_none_iff first idle).1 stuck
      exact ⟨.nil, fun unit => ⟨fun listed => (List.not_mem_nil listed).elim,
        fun leads => (acyclic unit leads).elim⟩, fun _ listed => (List.not_mem_nil listed).elim⟩

end Graph

namespace Schedule

variable {registry : Registry} {start summaries : Summaries} {graph : Graph}
variable {unit : UnitId} {method : Method}

/-! ## Accounts determine the findings -/

section Agreement

variable {others : Summaries} {result rival : Result}
variable (named : registry.Named) (first : Accounted registry start summaries result)
variable (second : Accounted registry start others rival)

include named first second

/-- Where calls come to an end, the same has been found out and written. -/
theorem Accounted.agree {found other : Eval.Result}
    (ends : Acc (Function.swap (Graph.Calls registry)) unit)
    (listed : (unit, found) ∈ result.units) (also : (unit, other) ∈ rival.units) :
    SameFindings found other ∧ summaries.find? unit = others.find? unit := by
  induction ends generalizing found other with
  | intro unit _ ih =>
      obtain ⟨left⟩ := first.accounts unit found listed
      obtain ⟨right⟩ := second.accounts unit other also
      have methods : right.method = left.method :=
        Option.some.inj (right.known.symm.trans left.known)
      have callees : ∀ third, Graph.Calls registry unit third →
          left.reading.find? third = right.reading.find? third := by
        intro third calls
        obtain ⟨⟨_, one⟩, member, rfl⟩ := List.mem_map.1
          (first.settled unit (List.mem_map.2 ⟨_, listed, rfl⟩) third calls)
        obtain ⟨⟨_, two⟩, present, rfl⟩ := List.mem_map.1
          (second.settled unit (List.mem_map.2 ⟨_, also, rfl⟩) _ calls)
        rw [left.callees _ calls, right.callees _ calls]
        exact (ih _ calls member present).2
      obtain ⟨twin, analyzed, same⟩ := left.analyzed.alike named left.known callees
        (left.own.trans right.own.symm) right.lastId
      obtain ⟨rfl, summary⟩ := analyzed.unique (methods ▸ right.analyzed)
      rw [left.written, right.written, summary]
      exact ⟨same, rfl⟩

/-- What has been analyzed once can be analyzed again. -/
theorem Accounted.exists_analyzed {reading : Summaries} {other : Eval.Result}
    (ends : Acc (Function.swap (Graph.Calls registry)) unit)
    (known : registry.method? unit = some method)
    (reads : Reads registry start summaries reading unit)
    (settled : Graph.Settled registry result.order unit)
    (also : (unit, other) ∈ rival.units) (lastId : Nat) :
    ∃ found summary, Analyzed registry reading lastId method found summary := by
  obtain ⟨account⟩ := second.accounts unit other also
  cases known.symm.trans account.known
  have callees : ∀ third, Graph.Calls registry unit third →
      account.reading.find? third = reading.find? third := by
    intro third calls
    obtain ⟨⟨_, one⟩, member, rfl⟩ := List.mem_map.1 (settled third calls)
    obtain ⟨⟨_, two⟩, present, rfl⟩ := List.mem_map.1
      (second.settled unit (List.mem_map.2 ⟨_, also, rfl⟩) _ calls)
    rw [account.callees _ calls, reads.callees _ calls]
    exact (first.agree named second (ends.inv calls) member present).2.symm
  obtain ⟨found, analyzed, _⟩ := account.analyzed.alike named known callees
    (account.own.trans reads.own.symm) lastId
  exact ⟨found, account.summary, analyzed⟩

end Agreement

theorem Fits.accounted {keep : UnitId → Bool} {worker : Worker}
    (fits : Fits registry keep start summaries worker) :
    Accounted registry start summaries worker.result :=
  ⟨fun _ listed => fits.foremost.calleesFirst_of_restrict.settled listed, fits.accounts⟩

/-! ## A worker at its end -/

/-- A worker has run out of ready units. -/
structure Rested (part : Registry) (worker : Worker) : Prop where
  consistent : worker.graph.Consistent part worker.result.order
  idle : worker.graph.ready.isEmpty = true
  error : worker.error = worker.graph.stuck?.map .cycle

/-- A unit that was next has failed. -/
structure Failed (registry part : Registry) (start summaries : Summaries) (worker : Worker)
    (unit : UnitId) (method : Method) (reading : Summaries) (lastId : Nat) : Prop where
  eligible : Eligible part worker.result.order unit
  known : part.method? unit = some method
  reads : Reads registry start summaries reading unit
  unanalyzed : ∀ found summary, ¬Analyzed registry reading lastId method found summary
  error : ∃ error, worker.error = some (.unit error)

section Worker

variable {keep : UnitId → Bool} {worker : Worker} {alone : Progress}

theorem Fits.cases (fits : Fits registry keep start summaries worker) (done : ¬worker.IsBusy) :
    Rested (registry.restrict keep) worker ∨ ∃ unit method reading lastId,
      Failed registry (registry.restrict keep) start summaries worker unit method reading lastId := by
  obtain ⟨graph, result, stage⟩ := worker
  obtain ⟨_, _, stands⟩ := fits
  dsimp only at stands
  cases stands with
  | asking | evaluating | recording => exact (done fun _ => by simp).elim
  | idle consistent idle => exact .inl ⟨consistent, idle, rfl⟩
  | failed error lastId foremost known reads unanalyzed =>
      exact .inr ⟨_, _, _, lastId, foremost.1, known, reads, unanalyzed, error, rfl⟩

/-- Where the run of the whole has run out of ready units, no worker has failed. -/
theorem Fits.not_failed (named : registry.Named) (sound : Sound registry start alone)
    (fits : Fits registry keep start summaries worker)
    (idle : alone.graph.ready.isEmpty = true) {reading : Summaries} {lastId : Nat}
    (failed : Failed registry (registry.restrict keep) start summaries worker unit method reading
      lastId) : False := by
  obtain ⟨known, _⟩ := of_method?_restrict failed.known
  have settled : Graph.Settled registry worker.result.order unit :=
    fun _ calls => failed.eligible.mem_of_calls calls
  have ends : Acc (Function.swap (Graph.Calls registry)) unit :=
    ⟨_, fun other calls => fits.foremost.calleesFirst_of_restrict.acc (settled other calls)⟩
  have processed := sound.consistent.mem_of_acc idle ends (by rw [known]; rfl)
  obtain ⟨⟨_, other⟩, listed, rfl⟩ := List.mem_map.1 (List.mem_reverse.1 processed)
  obtain ⟨found, summary, analyzed⟩ := fits.accounted.exists_analyzed named sound.accounted ends known
    failed.reads settled listed lastId
  exact failed.unanalyzed found summary analyzed

/-- A worker that has run out of ready units has processed all units of its part from
which calls come to an end. -/
theorem Rested.mem_of_acc (rested : Rested (registry.restrict keep) worker)
    (ends : Acc (Function.swap (Graph.Calls registry)) unit)
    (known : (registry.method? unit).isSome = true) (kept : keep unit = true) :
    unit ∈ worker.result.order := by
  refine rested.consistent.mem_of_acc rested.idle (Subrelation.accessible ?_ ends) ?_
  · exact fun calls => (Graph.calls_restrict_iff.1 calls).1
  · rw [Registry.method?_restrict]
    simpa [kept] using known

section Whole

variable (sound : Sound registry start alone) (idle : alone.graph.ready.isEmpty = true)
variable (every : InTurn (Foremost registry) alone.result.order)
variable (fits : Fits registry keep start summaries worker)
variable (rested : Rested (registry.restrict keep) worker)
variable (closed : ∀ {unit other}, Graph.Calls registry unit other → keep unit = true →
  keep other = true)

include sound idle every fits rested closed

/-- The worker has processed the units of its part that a run of the whole processes,
in the same order. -/
theorem Rested.order_eq : worker.result.order = alone.result.order.filter keep := by
  have filtered := every.filter closed
  have same : worker.result.order.Perm (alone.result.order.filter keep) := by
    refine (List.perm_ext_iff_of_nodup fits.foremost.nodup filtered.nodup).2 fun unit => ?_
    rw [List.mem_filter]
    constructor
    · intro listed
      have known := fits.foremost.isSome_method? listed
      obtain ⟨method, present⟩ := Option.isSome_iff_exists.1 known
      obtain ⟨present, kept⟩ := of_method?_restrict present
      have ends := fits.foremost.calleesFirst_of_restrict.acc listed
      exact ⟨List.mem_reverse.1 (sound.consistent.mem_of_acc idle ends (by rw [present]; rfl)), kept⟩
    · intro ⟨listed, kept⟩
      exact rested.mem_of_acc (every.calleesFirst.acc listed) (every.isSome_method? listed) kept
  exact fits.foremost.eq_of_foremost filtered same.length_eq

/-- The worker reports the cycles of its part that a run of the whole reports. -/
theorem Rested.stuckUnits_eq :
    worker.graph.stuckUnits = alone.graph.stuckUnits.filter fun entry => keep entry.unit := by
  have part : worker.graph.Consistent (registry.restrict keep) worker.result.order.reverse :=
    rested.consistent.congr fun unit => List.mem_reverse.symm
  exact (part.exact_stuckUnits fits.foremost.calleesFirst rested.idle).unique
    (Graph.exact_filter closed (sound.consistent.exact_stuckUnits every.calleesFirst idle))

end Whole

end Worker

end Schedule

end Custody
