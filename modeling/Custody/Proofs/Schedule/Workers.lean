import Custody.Proofs.Schedule.Confluence
import Custody.Proofs.Schedule.Greedy
import Custody.Proofs.Schedule.Interleaving

/-!
# What a worker keeps

A worker processes the units of its part in the order in which a run of the part alone
would.  It reads and writes summaries of units of its part only, so it does not matter
to a worker what the others do between its steps.
-/

namespace Custody.Schedule

variable {registry part : Registry} {keep : UnitId → Bool} {start summaries newer : Summaries}
variable {order : List UnitId} {graph : Graph} {unit : UnitId} {method : Method}

/-- Summaries with which a unit may be evaluated: they say what is said now about the
units it calls, and about the unit itself what was said at the start. -/
structure Reads (registry : Registry) (start summaries reading : Summaries) (unit : UnitId) :
    Prop where
  callees : ∀ other, Graph.Calls registry unit other →
    reading.find? other = summaries.find? other
  own : reading.find? unit = start.find? unit

/-- A unit has been dispatched as the least one, and its graph lets it be completed. -/
structure Underway (part : Registry) (order : List UnitId) (graph : Graph) (unit : UnitId)
    (method : Method) : Prop where
  foremost : Foremost part order unit
  known : part.method? unit = some method
  listed : (graph.nodes.find? unit).bind (·.method) = some method
  completes : ∃ events told next, Graph.finish unit graph = .ok events told ∧
    Graph.applyAll events told = .ok () next ∧ next.Consistent part (order ++ [unit])

/-- Where a worker stands that has processed some units of its part. -/
inductive Stands (registry part : Registry) (start summaries : Summaries) (order : List UnitId)
    (graph : Graph) : Stage → Prop
  | asking (consistent : graph.Consistent part order)
      (untouched : ∀ other, (part.method? other).isSome = true → other ∉ order →
        summaries.find? other = start.find? other) :
      Stands registry part start summaries order graph .asking
  | evaluating {unit : UnitId} {method : Method} (underway : Underway part order graph unit method)
      (untouched : ∀ other, (part.method? other).isSome = true → other ∉ order →
        summaries.find? other = start.find? other) :
      Stands registry part start summaries order graph (.evaluating unit)
  | recording {unit : UnitId} {method : Method} {found : Eval.Result}
      {entries : List (Summary → Except Summary.Error Summary)} {reading : Summaries} {lastId : Nat}
      (underway : Underway part order graph unit method)
      (untouched : ∀ other, (part.method? other).isSome = true → other ∉ order → other ≠ unit →
        summaries.find? other = start.find? other)
      (reads : Reads registry start summaries reading unit)
      (evaluated : (Eval.run (.counting registry reading method) lastId).result = .ok found)
      (remaining : recordUntilRefused entries (summaries.of method) =
        recordUntilRefused (recordSteps method found) (start.of method))
      (written : entries = [] → (summaries.find? unit).isSome = true) :
      Stands registry part start summaries order graph (.recording unit method found entries)
  | idle (consistent : graph.Consistent part order) (idle : graph.ready.isEmpty = true) :
      Stands registry part start summaries order graph (.ended (graph.stuck?.map .cycle))
  | failed {unit : UnitId} {method : Method} {reading : Summaries} (error : UnitError)
      (lastId : Nat) (foremost : Foremost part order unit)
      (known : part.method? unit = some method)
      (reads : Reads registry start summaries reading unit)
      (unanalyzed : ∀ found summary, ¬Analyzed registry reading lastId method found summary) :
      Stands registry part start summaries order graph (.ended (some (.unit error)))

/-- A worker has processed units of its part in turn, and can account for them. -/
structure Fits (registry : Registry) (keep : UnitId → Bool) (start summaries : Summaries)
    (worker : Worker) : Prop where
  foremost : InTurn (Foremost (registry.restrict keep)) worker.result.order
  accounts : ∀ unit found, (unit, found) ∈ worker.result.units →
    Nonempty (Account registry start summaries unit found)
  stands : Stands registry (registry.restrict keep) start summaries worker.result.order
    worker.graph worker.stage

/-! ## Units of the part -/

theorem of_eq_of_find?_eq (named : registry.Named) (known : registry.method? unit = some method)
    (same : newer.find? unit = summaries.find? unit) : newer.of method = summaries.of method := by
  rw [Summaries.of, Summaries.of, named unit method known, same]

theorem of_isSome_restrict (known : ((registry.restrict keep).method? unit).isSome = true) :
    keep unit = true := by
  obtain ⟨method, found⟩ := Option.isSome_iff_exists.1 known
  rw [Registry.method?_restrict] at found
  exact (Option.filter_eq_some_iff.1 found).2

theorem of_method?_restrict (known : (registry.restrict keep).method? unit = some method) :
    registry.method? unit = some method ∧ keep unit = true := by
  rw [Registry.method?_restrict] at known
  exact Option.filter_eq_some_iff.1 known

/-- What a unit of the part calls comes before it. -/
theorem Eligible.mem_of_calls (eligible : Eligible (registry.restrict keep) order unit)
    {other : UnitId} (calls : Graph.Calls registry unit other) : other ∈ order :=
  eligible.2.2 other (Graph.calls_restrict_iff.2 ⟨calls, of_isSome_restrict eligible.1⟩)

/-- The units of a part call each other only. -/
theorem InTurn.calleesFirst_of_restrict
    (every : InTurn (Foremost (registry.restrict keep)) order) : CalleesFirst registry order :=
  fun before unit after split _ calls => (every before unit after split).1.mem_of_calls calls

/-! ## Changes that do not matter -/

/-- The accounts stand as long as nothing is written about processed units. -/
theorem accounts_later {result : Result}
    (every : InTurn (Foremost (registry.restrict keep)) result.order)
    (accounts : ∀ unit found, (unit, found) ∈ result.units →
      Nonempty (Account registry start summaries unit found))
    (same : ∀ other ∈ result.order, newer.find? other = summaries.find? other) :
    ∀ unit found, (unit, found) ∈ result.units →
      Nonempty (Account registry start newer unit found) := by
  intro unit found member
  have listed : unit ∈ result.order := List.mem_map.2 ⟨_, member, rfl⟩
  obtain ⟨account⟩ := accounts unit found member
  have settled := every.calleesFirst_of_restrict.settled listed
  exact ⟨account.later (fun other calls => same other (settled other calls)) (same unit listed)⟩

theorem Reads.later {reading : Summaries} (reads : Reads registry start summaries reading unit)
    (eligible : Eligible (registry.restrict keep) order unit)
    (same : ∀ other ∈ order, newer.find? other = summaries.find? other) :
    Reads registry start newer reading unit :=
  ⟨fun other calls => (reads.callees other calls).trans
    (same other (eligible.mem_of_calls calls)).symm, reads.own⟩

/-- Nothing changes for a worker while other parts are written. -/
theorem Fits.elsewhere {worker : Worker} (fits : Fits registry keep start summaries worker)
    (named : registry.Named)
    (same : ∀ other, keep other = true → newer.find? other = summaries.find? other) :
    Fits registry keep start newer worker := by
  obtain ⟨graph, result, stage⟩ := worker
  obtain ⟨foremost, accounts, stands⟩ := fits
  have listed : ∀ other ∈ result.order, newer.find? other = summaries.find? other :=
    fun other member => same other (of_isSome_restrict (foremost.isSome_method? member))
  have known : ∀ other, ((registry.restrict keep).method? other).isSome = true →
      newer.find? other = summaries.find? other :=
    fun other present => same other (of_isSome_restrict present)
  refine ⟨foremost, accounts_later foremost accounts listed, ?_⟩
  dsimp only at stands ⊢
  cases stands with
  | asking consistent untouched =>
      exact .asking consistent fun other present fresh =>
        (known other present).trans (untouched other present fresh)
  | evaluating underway untouched =>
      exact .evaluating underway fun other present fresh =>
        (known other present).trans (untouched other present fresh)
  | @recording unit method found entries reading lastId underway untouched reads evaluated remaining
      written =>
      obtain ⟨present, kept⟩ := of_method?_restrict underway.known
      refine .recording underway (fun other present fresh apart =>
        (known other present).trans (untouched other present fresh apart))
        (reads.later underway.foremost.1 listed) evaluated ?_ fun nothing => ?_
      · rw [← remaining, of_eq_of_find?_eq named present (same unit kept)]
      · rw [same unit kept]
        exact written nothing
  | idle consistent idle => exact .idle consistent idle
  | failed error lastId least known reads unanalyzed =>
      exact .failed error lastId least known (reads.later least.1 listed) unanalyzed

/-! ## One step of a worker -/

/-- Recording about a unit that has not been processed leaves the processed ones alone. -/
theorem find?_record_of_ne (named : registry.Named) (known : registry.method? unit = some method)
    (summary : Summary) {other : UnitId} (apart : other ≠ unit) :
    (summaries.record method summary).find? other = summaries.find? other := by
  rw [Summaries.record, named unit method known, Table.find?_insert_of_ne apart]

theorem Underway.of_advance {unit : UnitId} {after : Graph}
    (consistent : graph.Consistent part order) (ready : graph.ready.contains unit = true)
    (dispatched : Graph.dispatch unit graph = .ok () after)
    (foremost : Foremost part order unit) :
    ∃ method, Underway part order after unit method := by
  obtain ⟨_, events, told, next, same, ⟨node, found, named⟩, finished, applied, last⟩ :=
    consistent.advance ready
  cases dispatched.symm.trans same
  obtain ⟨method, known⟩ := Option.isSome_iff_exists.1 foremost.1.1
  refine ⟨method, foremost, known, ?_, events, told, next, finished, applied, last.congr ?_⟩
  · rw [found, Option.bind_some, named, known]
  · intro other
    rw [List.mem_cons, List.mem_append, List.mem_singleton, or_comm]

/-- What becomes of a worker when it takes a step. -/
def Advances (registry : Registry) (keep : UnitId → Bool) (start summaries : Summaries)
    (next : Worker × Shared) : Prop :=
  Fits registry keep start next.2.summaries next.1 ∧
    ∀ other, keep other = false → next.2.summaries.find? other = summaries.find? other

section Tick

variable {result : Result} {shared : Shared} {found : Eval.Result}

/-- Asking for a unit. -/
theorem Fits.asked
    (fits : Fits registry keep start shared.summaries ⟨graph, result, .asking⟩) :
    Advances registry keep start shared.summaries
      (Worker.tick registry ⟨graph, result, .asking⟩ shared) := by
  obtain ⟨foremost, accounts, stands⟩ := fits
  obtain ⟨consistent, untouched⟩ := stands
  unfold Worker.tick
  dsimp only
  obtain ⟨idle, none⟩ | ⟨unit, after, ready, dispatched, sent, least⟩ := nextReady_cases consistent
  · rw [none]
    exact ⟨⟨foremost, accounts, .idle consistent idle⟩, fun _ _ => rfl⟩
  · rw [sent]
    obtain ⟨method, underway⟩ := Underway.of_advance consistent ready dispatched least
    exact ⟨⟨foremost, accounts, .evaluating underway untouched⟩, fun _ _ => rfl⟩

/-- Evaluating a unit. -/
theorem Fits.evaluated (named : registry.Named)
    (fits : Fits registry keep start shared.summaries ⟨graph, result, .evaluating unit⟩) :
    Advances registry keep start shared.summaries
      (Worker.tick registry ⟨graph, result, .evaluating unit⟩ shared) := by
  obtain ⟨foremost, accounts, stands⟩ := fits
  cases stands with
  | @evaluating _ method underway untouched =>
      have own : shared.summaries.find? unit = start.find? unit :=
        untouched unit underway.foremost.1.1 underway.foremost.1.2.1
      have reads : Reads registry start shared.summaries shared.summaries unit :=
        ⟨fun _ _ => rfl, own⟩
      unfold Worker.tick
      dsimp only
      rw [underway.listed]
      dsimp only
      split
      next failure failed =>
        refine ⟨⟨foremost, accounts, .failed _ shared.lastId underway.foremost
          underway.known reads fun found summary analyzed => ?_⟩, fun _ _ => rfl⟩
        cases failed.symm.trans analyzed.evaluated
      next found evaluated =>
        refine ⟨⟨foremost, accounts, .recording underway
          (fun other present fresh _ => untouched other present fresh) reads evaluated ?_ ?_⟩,
          fun _ _ => rfl⟩
        · rw [of_eq_of_find?_eq named (of_method?_restrict underway.known).1 own]
        · simp [recordSteps]

/-- Writing an entry. -/
theorem Fits.recorded (named : registry.Named)
    {entry : Summary → Except Summary.Error Summary}
    {rest : List (Summary → Except Summary.Error Summary)}
    (fits : Fits registry keep start shared.summaries
      ⟨graph, result, .recording unit method found (entry :: rest)⟩) :
    Advances registry keep start shared.summaries
      (Worker.tick registry ⟨graph, result, .recording unit method found (entry :: rest)⟩
        shared) := by
  obtain ⟨foremost, accounts, stands⟩ := fits
  cases stands with
  | @recording _ _ _ _ reading lastId underway untouched reads evaluated remaining written =>
      obtain ⟨known, kept⟩ := of_method?_restrict underway.known
      have elsewhere : ∀ summary other, other ≠ unit →
          (shared.summaries.record method summary).find? other = shared.summaries.find? other :=
        fun summary other apart => find?_record_of_ne named known summary apart
      have processed : ∀ summary, ∀ other ∈ result.order,
          (shared.summaries.record method summary).find? other =
            shared.summaries.find? other := by
        refine fun summary other listed => elsewhere summary other ?_
        rintro rfl
        exact underway.foremost.1.2.1 listed
      have outside : ∀ summary other, keep other = false →
          (shared.summaries.record method summary).find? other =
            shared.summaries.find? other := by
        refine fun summary other left => elsewhere summary other ?_
        rintro rfl
        rw [kept] at left
        cases left
      have old : reading.of method = start.of method := of_eq_of_find?_eq named known reads.own
      rw [recordUntilRefused] at remaining
      dsimp only at remaining
      unfold Worker.tick
      dsimp only
      split
      next error refused =>
        rw [refused] at remaining
        refine ⟨⟨foremost, accounts_later foremost accounts (processed _), .failed _ lastId
          underway.foremost underway.known (reads.later underway.foremost.1 (processed _))
          fun found' summary analyzed => ?_⟩, outside _⟩
        cases evaluated.symm.trans analyzed.evaluated
        rw [← old, analyzed.recorded] at remaining
        cases remaining
      next summary accepted =>
        rw [accepted] at remaining
        refine ⟨⟨foremost, accounts_later foremost accounts (processed _), .recording underway
          (fun other present fresh apart => (elsewhere _ other apart).trans
            (untouched other present fresh apart))
          (reads.later underway.foremost.1 (processed _)) evaluated ?_ fun _ => ?_⟩, outside _⟩
        · rw [of_record]
          exact remaining
        · simp [Summaries.record, named unit method known]

/-- Marking a unit as processed. -/
theorem Fits.completed (named : registry.Named)
    (fits : Fits registry keep start shared.summaries
      ⟨graph, result, .recording unit method found []⟩) :
    Advances registry keep start shared.summaries
      (Worker.tick registry ⟨graph, result, .recording unit method found []⟩ shared) := by
  obtain ⟨foremost, accounts, stands⟩ := fits
  cases stands with
  | @recording _ _ _ _ reading lastId underway untouched reads evaluated remaining written =>
      obtain ⟨known, _⟩ := of_method?_restrict underway.known
      obtain ⟨events, told, next, finished, applied, consistent⟩ := underway.completes
      have completed : complete unit ⟨graph, shared.summaries, shared.lastId, [],
            result.add unit found⟩ =
          .ok () ⟨next, shared.summaries, shared.lastId, [], result.add unit found⟩ := by
        simp only [complete, finished]
        exact wake_of_applyAll applied
      rw [recordUntilRefused] at remaining
      obtain ⟨summary, present⟩ := Option.isSome_iff_exists.1 (written rfl)
      have current : shared.summaries.of method = summary := by
        rw [Summaries.of, named unit method known, present]
        rfl
      have old : reading.of method = start.of method := of_eq_of_find?_eq named known reads.own
      have account : Account registry start shared.summaries unit found := {
        method, reading, lastId, summary
        known
        callees := reads.callees
        own := reads.own
        analyzed := ⟨evaluated, by rw [old, ← remaining, current]; rfl⟩
        written := present }
      unfold Worker.tick
      dsimp only
      rw [completed]
      refine ⟨⟨?_, fun other result listed => ?_, ?_⟩, fun _ _ => rfl⟩
      · rw [order_add]
        exact inTurn_concat_iff.2 ⟨foremost, underway.foremost⟩
      · rcases List.mem_append.1 listed with earlier | last
        · exact accounts other result earlier
        · cases List.mem_singleton.1 last
          exact ⟨account⟩
      · rw [order_add]
        refine .asking consistent fun other present fresh => ?_
        rw [List.mem_append, not_or, List.mem_singleton] at fresh
        exact untouched other present fresh.1 fresh.2

/-- A worker keeps to its part. -/
theorem Fits.tick {worker : Worker} (named : registry.Named)
    (fits : Fits registry keep start shared.summaries worker) :
    Advances registry keep start shared.summaries (worker.tick registry shared) := by
  obtain ⟨graph, result, stage⟩ := worker
  cases stage with
  | asking => exact fits.asked
  | evaluating unit => exact fits.evaluated named
  | recording unit method found entries =>
      cases entries with
      | cons entry rest => exact fits.recorded named
      | nil => exact fits.completed named
  | ended error => exact ⟨fits, fun _ _ => rfl⟩

end Tick

end Custody.Schedule
