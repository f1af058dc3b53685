import Custody.Proofs.Schedule.Parallel
import Custody.Proofs.Schedule.Recording

/-!
# What a result keeps of a run

A run writes summaries of the units that it processes, and its result lists these units.
Where the units are processed one after the other, the result holds what has been
written about, each unit once, whether the run succeeds or not.

Side by side, the results of the workers are read in the order of the parts, and a
failure ends the reading.  So the result holds all that has been written unless a worker
behind the first one that failed has processed a unit.
-/

namespace Custody.Schedule

open Relation

variable {registry part : Registry} {start summaries : Summaries} {graph : Graph}

/-- Something is known of a unit. -/
def Written (registry : Registry) (summaries : Summaries) (unit : UnitId) : Prop :=
  ∃ method, registry.method? unit = some method ∧ summaries.of method ≠ .unanalyzed method

/-- The result holds the units that have been written about, each once. -/
structure Outcome.Retains (registry : Registry) (outcome : Outcome) : Prop where
  distinct : outcome.result.order.Nodup
  order : ∀ unit, unit ∈ outcome.result.order ↔ Written registry outcome.summaries unit
  effects : ∀ unit, outcome.result.effects.contains unit = true ↔
    Written registry outcome.summaries unit
  receivers : ∀ unit, outcome.result.receivers.contains unit = true ↔
    Written registry outcome.summaries unit

/-! ## Units and summaries -/

theorem contains_table (result : Result) (unit : UnitId) :
    result.table.contains unit = true ↔ unit ∈ result.order := Table.isSome_find?_ofList

/-- Order, effects and receivers of a result list the same units. -/
theorem Outcome.Retains.of_order {outcome : Outcome} (distinct : outcome.result.order.Nodup)
    (order : ∀ unit, unit ∈ outcome.result.order ↔ Written registry outcome.summaries unit) :
    outcome.Retains registry := by
  refine ⟨distinct, order, fun unit => ?_, fun unit => ?_⟩
  · rw [← order, ← contains_table, Table.contains, Result.effects, Table.find?_map,
      Option.isSome_map]
    rfl
  · rw [← order, ← contains_table, Table.contains, Result.receivers, Table.find?_map,
      Option.isSome_map]
    rfl

/-- A unit with an account has been written about: its receiver is known. -/
theorem Accounted.written {result : Result} {unit : UnitId}
    (accounted : Accounted registry start summaries result) (named : registry.Named)
    (blank : Blank registry start) (listed : unit ∈ result.order) :
    Written registry summaries unit := by
  obtain ⟨⟨_, found⟩, member, rfl⟩ := List.mem_map.1 listed
  obtain ⟨method, known, present, answers⟩ := accounted.answers named blank member
  refine ⟨method, known, fun same => answers.receiver ?_⟩
  rw [Summaries.of, named _ method known, present, Option.getD_some] at same
  rw [same]
  rfl

/-- What is said about a unit that has been written about is not what was said at the
start. -/
theorem Written.find?_ne {unit : UnitId} (written : Written registry summaries unit)
    (named : registry.Named) (blank : Blank registry start) :
    summaries.find? unit ≠ start.find? unit := by
  intro same
  obtain ⟨method, known, differs⟩ := written
  exact differs (blank.of_find?_eq named known same)

/-! ## One after the other -/

/-- An execution lists what it has written about. -/
theorem retains_of_executes {policy : Policy} {lastId : Nat} {error : Option Error}
    {last : Progress} (named : registry.Named) (built : Graph.build registry policy = .ok graph)
    (blank : Blank registry start)
    (executes : Executes registry (.start graph start lastId) error last) :
    Outcome.Retains registry ⟨last.result, error, last.summaries, last.log⟩ := by
  obtain ⟨middle, steps, ends⟩ := executes
  have begins := sound_start named built start lastId
  have sound := begins.steps named steps
  have known := sound.known named blank (calleesFirst_of_steps named begins steps) ends
  refine .of_order known.distinct fun unit => ⟨fun listed => ?_, fun written => ?_⟩
  · obtain ⟨method, summary, resolved, present, _, _, answers⟩ := known.processed unit listed
    refine ⟨method, resolved, fun same => answers.receiver ?_⟩
    rw [Summaries.of, named unit method resolved, present, Option.getD_some] at same
    rw [same]
    rfl
  · obtain ⟨method, resolved, differs⟩ := written
    by_contra absent
    exact differs (known.others unit method resolved absent)

/-! ## Workers write about their own units -/

/-- The worker is writing about a unit. -/
def Worker.Records (worker : Worker) (unit : UnitId) : Prop :=
  ∃ method found entries, worker.stage = .recording unit method found entries

/-- Of the units of a part, those have been written about that the worker has processed,
and the one it is writing about. -/
def Reserved (part : Registry) (start summaries : Summaries) (worker : Worker) : Prop :=
  ∀ unit, (part.method? unit).isSome = true → unit ∉ worker.result.order →
    ¬worker.Records unit → summaries.find? unit = start.find? unit

section Tick

variable {keep : UnitId → Bool} {worker : Worker} {shared : Shared} {unit : UnitId}
variable {method : Method} {result : Result} {found : Eval.Result}

/-- Where nothing is known at the start, no entry is refused. -/
theorem Fits.accepted {entry : Summary → Except Summary.Error Summary}
    {rest : List (Summary → Except Summary.Error Summary)} (blank : Blank registry start)
    (fits : Fits registry keep start summaries
      ⟨graph, result, .recording unit method found (entry :: rest)⟩) :
    ∃ summary, entry (summaries.of method) = .ok summary := by
  cases fits.stands with
  | recording underway untouched reads evaluated remaining written =>
      obtain ⟨known, _⟩ := of_method?_restrict underway.known
      rw [blank unit method known, record_unanalyzed (Eval.answers_of_run evaluated),
        recordUntilRefused] at remaining
      cases accepted : entry (summaries.of method) with
      | ok summary => exact ⟨summary, rfl⟩
      | error error =>
          simp only [accepted] at remaining
          cases remaining

/-- A step writes about no other unit. -/
theorem Reserved.tick (named : registry.Named) (blank : Blank registry start)
    (fits : Fits registry keep start shared.summaries worker)
    (reserved : Reserved (registry.restrict keep) start shared.summaries worker) :
    Reserved (registry.restrict keep) start (worker.tick registry shared).2.summaries
      (worker.tick registry shared).1 := by
  obtain ⟨graph, result, stage⟩ := worker
  intro other present fresh free
  cases stage with
  | asking =>
      have idle : ¬Worker.Records ⟨graph, result, .asking⟩ other := by simp [Worker.Records]
      unfold Worker.tick at fresh ⊢
      dsimp only at fresh ⊢
      split at fresh <;> exact reserved other present fresh idle
  | evaluating unit =>
      have idle : ¬Worker.Records ⟨graph, result, .evaluating unit⟩ other := by
        simp [Worker.Records]
      unfold Worker.tick at fresh ⊢
      dsimp only at fresh ⊢
      split at fresh
      next => exact reserved other present fresh idle
      next => split at fresh <;> exact reserved other present fresh idle
  | ended error => exact reserved other present fresh free
  | recording unit method found entries =>
      cases entries with
      | cons entry rest =>
          obtain ⟨summary, accepted⟩ := fits.accepted blank
          simp only [Worker.tick, accepted] at fresh free ⊢
          have apart : other ≠ unit := by
            rintro rfl
            exact free ⟨method, found, rest, rfl⟩
          cases fits.stands with
          | recording underway =>
              obtain ⟨known, _⟩ := of_method?_restrict underway.known
              rw [find?_record_of_ne named known summary apart]
              refine reserved other present fresh ?_
              rintro ⟨_, _, _, same⟩
              cases same
              exact apart rfl
      | nil =>
          have written : (Worker.tick registry ⟨graph, result, .recording unit method found []⟩
              shared).1.result = result.add unit found ∧
                (Worker.tick registry ⟨graph, result, .recording unit method found []⟩
                  shared).2 = shared := by
            unfold Worker.tick
            dsimp only
            split <;> exact ⟨rfl, rfl⟩
          rw [written.1, order_add, List.mem_append, not_or, List.mem_singleton] at fresh
          rw [written.2]
          refine reserved other present fresh.1 ?_
          rintro ⟨_, _, _, same⟩
          cases same
          exact fresh.2 rfl

end Tick

/-! ## Along an interleaving -/

/-- Every worker keeps to its part, and nobody writes about the units of others. -/
def Floor.Reserving (registry : Registry) (graph : Graph) (start : Summaries) (floor : Floor) :
    Prop :=
  List.Forall₂ (fun label worker =>
    Fits registry (graph.inPart label) start floor.shared.summaries worker ∧
      Reserved (registry.restrict (graph.inPart label)) start floor.shared.summaries worker)
    graph.partLabels floor.workers

section Floor

variable {floor next : Floor}

theorem Floor.Aligned.reserving_start {lastId : Nat}
    (aligned : (Floor.start graph.components start lastId).Aligned registry graph start) :
    (Floor.start graph.components start lastId).Reserving registry graph start :=
  List.Forall₂.imp (fun _ _ fits => ⟨fits, fun _ _ _ _ => rfl⟩) aligned

theorem Floor.Reserving.step (named : registry.Named) (blank : Blank registry start)
    (reserving : floor.Reserving registry graph start) (step : Floor.Step registry floor next) :
    next.Reserving registry graph start := by
  cases step with
  | tick before worker after shared busy =>
      refine forall₂_replace graph.nodup_partLabels reserving fun label _ both => ?_
      obtain ⟨fits, outside⟩ := both.1.tick named
      refine ⟨⟨fits, both.2.tick named blank both.1⟩, fun other _ apart one keeps => ?_⟩
      have same : ∀ unit, graph.inPart other unit = true →
          (worker.tick registry shared).2.summaries.find? unit = shared.summaries.find? unit := by
        intro unit here
        refine outside unit (decide_eq_false fun inside => apart ?_)
        exact (Graph.inPart_iff.1 here).symm.trans inside
      refine ⟨keeps.1.elsewhere named same, fun unit present fresh free => ?_⟩
      rw [same unit (of_isSome_restrict present)]
      exact keeps.2 unit present fresh free

theorem Floor.Reserving.steps (named : registry.Named) (blank : Blank registry start)
    (reserving : floor.Reserving registry graph start)
    (steps : ReflTransGen (Floor.Step registry) floor next) :
    next.Reserving registry graph start := by
  induction steps with
  | refl => exact reserving
  | tail _ step ih => exact ih.step named blank step

/-- At the end, exactly the processed units have been written about. -/
theorem Floor.Reserving.written_iff (reserving : floor.Reserving registry graph start)
    (named : registry.Named) (blank : Blank registry start)
    (consistent : graph.Consistent registry []) (done : floor.IsDone) (unit : UnitId) :
    Written registry floor.shared.summaries unit ↔
      unit ∈ floor.workers.flatMap (·.result.order) := by
  rw [List.mem_flatMap]
  constructor
  · intro written
    obtain ⟨method, known, _⟩ := id written
    have present : (registry.method? unit).isSome = true := by rw [known]; rfl
    obtain ⟨worker, member, _, reserved⟩ :=
      exists_of_mem_left reserving (label_mem_of_known consistent present)
    refine ⟨worker, member, ?_⟩
    by_contra fresh
    refine written.find?_ne named blank (reserved unit ?_ fresh ?_)
    · rw [Registry.method?_restrict, known]
      simp
    · rintro ⟨_, _, _, recording⟩
      exact done worker member fun _ ended => by
        rw [recording] at ended
        cases ended
  · rintro ⟨worker, member, listed⟩
    obtain ⟨_, _, fits, _⟩ := exists_of_mem_left reserving.flip member
    exact fits.accounted.written named blank listed

/-- No unit is processed twice. -/
theorem Floor.Aligned.nodup (aligned : floor.Aligned registry graph start) :
    (floor.workers.flatMap (·.result.order)).Nodup := by
  have inside : ∀ label worker,
      Fits registry (graph.inPart label) start floor.shared.summaries worker →
      ∀ unit ∈ worker.result.order, graph.labels.of unit = label := by
    intro label worker fits unit listed
    exact Graph.inPart_iff.1 (of_isSome_restrict (fits.foremost.isSome_method? listed))
  have distinct := graph.nodup_partLabels
  unfold Floor.Aligned at aligned
  generalize graph.partLabels = labels at aligned distinct
  generalize floor.workers = workers at aligned
  induction aligned with
  | nil => exact .nil
  | @cons label worker labels workers fits rest ih =>
      obtain ⟨fresh, distinct⟩ := List.nodup_cons.1 distinct
      refine List.nodup_append.2 ⟨fits.foremost.nodup, ih distinct, ?_⟩
      rintro unit listed _ others rfl
      obtain ⟨other, member, listed'⟩ := List.mem_flatMap.1 others
      obtain ⟨another, present, keeps⟩ := exists_of_mem_left rest.flip member
      rw [← inside label worker fits unit listed, inside another other keeps unit listed'] at fresh
      exact fresh present

end Floor

/-! ## Reading the results -/

/-- Has the worker ended with a failure? -/
def Worker.hasFailed (worker : Worker) : Bool :=
  match worker.error with
  | none | some (.cycle _) => false
  | some _ => true

/-- The workers up to the first that has failed. -/
def readable : List Worker → List Worker
  | [] => []
  | worker :: rest => worker :: if worker.hasFailed then [] else readable rest

/-- The workers behind the first that has failed. -/
def unread : List Worker → List Worker
  | [] => []
  | worker :: rest => if worker.hasFailed then rest else unread rest

theorem readable_append_unread (workers : List Worker) :
    readable workers ++ unread workers = workers := by
  induction workers with
  | nil => rfl
  | cons worker rest ih =>
      unfold readable unread
      split
      · rfl
      · rw [List.cons_append, ih]

theorem unread_eq_nil {workers : List Worker}
    (unfailing : ∀ worker ∈ workers, worker.hasFailed = false) : unread workers = [] := by
  induction workers with
  | nil => rfl
  | cons worker rest ih =>
      unfold unread
      rw [if_neg (by simp [unfailing worker])]
      exact ih fun other member => unfailing other (.tail _ member)

/-- The results are put together up to the first failure. -/
theorem units_merge (workers : List Worker) (shared : Shared) (result : Result)
    (cycles : List CycleError) :
    (merge result cycles (workers.map fun worker => (worker.error,
      (⟨worker.graph, shared.summaries, shared.lastId, [], worker.result⟩ : Progress)))).1.units =
      result.units ++ (readable workers).flatMap (·.result.units) := by
  induction workers generalizing result cycles with
  | nil => simp [merge, readable]
  | cons worker rest ih =>
      unfold readable Worker.hasFailed
      simp only [List.map_cons, merge]
      cases ended : worker.error with
      | none => simp [ih, Result.append]
      | some error =>
          cases error with
          | cycle cycle => simp [ih, Result.append]
          | unit error => simp [Result.append]
          | graph error => simp [Result.append]

theorem order_outcome (floor : Floor) :
    floor.outcome.result.order = (readable floor.workers).flatMap (·.result.order) := by
  have units := units_merge floor.workers floor.shared .empty []
  rw [Result.order]
  change (merge .empty [] _).1.units.map (·.1) = _
  rw [units, Result.empty, List.nil_append, List.map_flatMap]
  rfl

section Reading

variable {floor : Floor}

/-- What the result lacks of what has been written is what the workers behind the first
failure have processed. -/
theorem Floor.Reserving.retains_iff (reserving : floor.Reserving registry graph start)
    (named : registry.Named) (blank : Blank registry start)
    (consistent : graph.Consistent registry []) (done : floor.IsDone) :
    floor.outcome.Retains registry ↔
      ∀ worker ∈ unread floor.workers, worker.result.order = [] := by
  have aligned : floor.Aligned registry graph start :=
    List.Forall₂.imp (fun _ _ both => both.1) reserving
  have distinct := aligned.nodup
  have written : ∀ unit, Written registry floor.shared.summaries unit ↔
      unit ∈ (readable floor.workers).flatMap (·.result.order) ∨
        unit ∈ (unread floor.workers).flatMap (·.result.order) := by
    intro unit
    rw [reserving.written_iff named blank consistent done, ← List.mem_append,
      ← List.flatMap_append, readable_append_unread]
  rw [← readable_append_unread floor.workers, List.flatMap_append] at distinct
  obtain ⟨first, second, apart⟩ := List.nodup_append.1 distinct
  constructor
  · intro retains worker member
    refine List.eq_nil_iff_forall_not_mem.2 fun unit listed => ?_
    have behind : unit ∈ (unread floor.workers).flatMap (·.result.order) :=
      List.mem_flatMap.2 ⟨worker, member, listed⟩
    have before := (retains.order unit).2 ((written unit).2 (.inr behind))
    rw [order_outcome] at before
    exact apart unit before unit behind rfl
  · intro nothing
    refine .of_order (by rw [order_outcome]; exact first) fun unit => ?_
    have empty : (unread floor.workers).flatMap (·.result.order) = [] :=
      List.flatMap_eq_nil_iff.2 nothing
    rw [order_outcome]
    refine Iff.trans ?_ (written unit).symm
    rw [empty]
    simp

/-- A result without a failed unit holds everything: no worker is left unread. -/
theorem Floor.Aligned.unread_eq_nil (aligned : floor.Aligned registry graph start)
    (done : floor.IsDone) (unfailed : ∀ error, floor.outcome.error ≠ some (.unit error)) :
    unread floor.workers = [] := by
  refine Schedule.unread_eq_nil fun worker member => ?_
  obtain ⟨label, _, fits⟩ := exists_of_mem_left aligned.flip member
  rcases fits.cases (done worker member) with rested | ⟨_, _, _, _, failed⟩
  · unfold Worker.hasFailed
    rw [rested.error]
    cases worker.graph.stuck? <;> rfl
  · obtain ⟨error, reported⟩ := exists_outcome_failed aligned done ⟨worker, member, failed.error⟩
    exact (unfailed error reported).elim

end Reading

/-- What a result keeps.  One after the other, the result holds exactly what has been
written about, each unit once, however the run ends.  Side by side, it holds nothing else
and no unit twice; it holds everything unless a unit has failed, and then it does exactly
if the workers behind the first failure have processed nothing. -/
theorem runs_retain_unless_unread (program : Code.Program) {policy : Policy} {graph : Graph}
    (built : Graph.build (.ofProgram program) policy = .ok graph) {summaries : Summaries}
    (blank : Blank (.ofProgram program) summaries) :
    (∀ workers < 2,
      (run (.ofProgram program) graph summaries workers).Retains (.ofProgram program)) ∧
    (∀ lastId error last, Executes (.ofProgram program) (.start graph summaries lastId) error last →
      Outcome.Retains (.ofProgram program) ⟨last.result, error, last.summaries, last.log⟩) ∧
    (∀ workers ≥ 2, ∃ floor,
      ReflTransGen (Floor.Step (.ofProgram program)) (.start graph.components summaries 0) floor ∧
        floor.IsDone ∧ run (.ofProgram program) graph summaries workers = floor.outcome) ∧
    ∀ floor,
      ReflTransGen (Floor.Step (.ofProgram program)) (.start graph.components summaries 0) floor →
      floor.IsDone →
        floor.outcome.result.order.Nodup ∧
        (∀ unit ∈ floor.outcome.result.order,
          Written (.ofProgram program) floor.outcome.summaries unit) ∧
        ((∀ error, floor.outcome.error ≠ some (.unit error)) →
          floor.outcome.Retains (.ofProgram program)) ∧
        (floor.outcome.Retains (.ofProgram program) ↔
          ∀ worker ∈ unread floor.workers, worker.result.order = []) := by
  have named := Registry.named_ofProgram program
  have consistent := Graph.consistent_build named built
  refine ⟨fun workers few => ?_, fun lastId error last => retains_of_executes named built blank,
    fun workers many => exists_interleaving _ graph summaries many, fun floor steps done => ?_⟩
  · have retains := retains_of_executes named built blank
      (executes_runGraph (.ofProgram program) graph summaries 0)
    simp only [run, if_pos few]
    exact retains
  · have aligned := (aligned_start consistent 0).steps named steps
    have reserving := (Floor.Aligned.reserving_start (aligned_start consistent 0)).steps named blank
      steps
    have retains := reserving.retains_iff named blank consistent done
    have distinct := aligned.nodup
    rw [← readable_append_unread floor.workers, List.flatMap_append, ← order_outcome] at distinct
    refine ⟨(List.nodup_append.1 distinct).1, fun unit listed => ?_, fun unfailed => ?_, retains⟩
    · refine (reserving.written_iff named blank consistent done unit).2 ?_
      rw [← readable_append_unread floor.workers, List.flatMap_append, ← order_outcome]
      exact List.mem_append_left _ listed
    · refine retains.2 fun worker member => ?_
      rw [aligned.unread_eq_nil done unfailed] at member
      cases member

/-- Three methods that call nothing.  The second stores into a field that nothing declares. -/
def forge : Code.Program := ⟨[⟨0, "Anvil", "", [⟨0, "Anvil", ["next"]⟩],
  [.plain "cast" [.assign 1 (some ⟨1, Code.this, "next"⟩) (.new 1 "Anvil" "" [])],
    .plain "melt" [.assign 2 (some ⟨2, Code.this, "lost"⟩) (.new 2 "Anvil" "" [])],
    .plain "pour" [.ret 3 [.reference ⟨3, Code.this, "next"⟩]]]⟩]⟩

/-- One after the other, the forge ends with a failure, and what was cast before is kept. -/
theorem runs_retain_unless_unread_forge :
    ∃ graph failure, Graph.build (.ofProgram forge) .lexicographic = .ok graph ∧
      Blank (.ofProgram forge) ∅ ∧
      (run (.ofProgram forge) graph ∅ 1).error = some (.unit failure) ∧
      (run (.ofProgram forge) graph ∅ 1).result.order = [⟨"Anvil", "cast"⟩] ∧
      (run (.ofProgram forge) graph ∅ 1).Retains (.ofProgram forge) := by
  have shown : ((Graph.build (.ofProgram forge) .lexicographic).toOption.map fun graph =>
      ((run (.ofProgram forge) graph ∅ 1).result.order,
        (run (.ofProgram forge) graph ∅ 1).error)) =
      some ([⟨"Anvil", "cast"⟩], some (.unit ⟨⟨"Anvil", "melt"⟩,
        .eval (.located 2 .assign (.registry (.unknownField "lost" "Anvil")))⟩)) := by decide +kernel
  cases built : Graph.build (.ofProgram forge) .lexicographic with
  | error error =>
      rw [built] at shown
      cases shown
  | ok graph =>
      rw [built] at shown
      simp only [Except.toOption, Option.map_some, Option.some.injEq, Prod.mk.injEq] at shown
      have blank : Blank (.ofProgram forge) ∅ := fun _ _ _ => rfl
      exact ⟨graph, _, rfl, blank, shown.2, shown.1,
        (runs_retain_unless_unread forge built blank).1 1 (by decide)⟩

/-- Side by side, the forge has poured, and the result does not say so. -/
theorem not_retains_forge :
    ∃ graph, Graph.build (.ofProgram forge) .lexicographic = .ok graph ∧
      Blank (.ofProgram forge) ∅ ∧ ¬(run (.ofProgram forge) graph ∅ 2).Retains (.ofProgram forge) := by
  have shown : ((Graph.build (.ofProgram forge) .lexicographic).toOption.map fun graph =>
      ((run (.ofProgram forge) graph ∅ 2).result.order,
        (Registry.method? (.ofProgram forge) ⟨"Anvil", "pour"⟩).map fun method =>
          ((run (.ofProgram forge) graph ∅ 2).summaries.of method).receiver)) =
      some ([⟨"Anvil", "cast"⟩], some .doesNotChange) := by decide +kernel
  cases built : Graph.build (.ofProgram forge) .lexicographic with
  | error error =>
      rw [built] at shown
      cases shown
  | ok graph =>
      rw [built] at shown
      simp only [Except.toOption, Option.map_some, Option.some.injEq, Prod.mk.injEq] at shown
      obtain ⟨order, poured⟩ := shown
      obtain ⟨method, known, receiver⟩ := Option.map_eq_some_iff.1 poured
      refine ⟨graph, rfl, fun _ _ _ => rfl, fun retains => ?_⟩
      have written : Written (.ofProgram forge) (run (.ofProgram forge) graph ∅ 2).summaries
          ⟨"Anvil", "pour"⟩ := by
        refine ⟨method, known, fun same => ?_⟩
        rw [same] at receiver
        cases receiver
      have listed := (retains.order _).2 written
      rw [order] at listed
      revert listed
      decide

end Custody.Schedule
