import Custody.Proofs.Schedule.Resting

/-!
# Side by side as one after the other

However the steps of the workers are interleaved, they end as a run of the whole graph
does: the same units are processed, in each part in the same order, with the same
findings; the same cycles are reported; and if a unit fails in one of the two, then a
unit fails in the other.
-/

namespace Custody

open Relation

namespace Schedule

variable {registry : Registry} {start summaries : Summaries} {graph : Graph}
variable {unit : UnitId} {method : Method}

/-! ## Along an interleaving -/

theorem forall₂_imp_of_mem {α β : Type} {related also : α → β → Prop} {left : List α}
    {right : List β} (each : List.Forall₂ related left right)
    (weaken : ∀ one ∈ left, ∀ other ∈ right, related one other → also one other) :
    List.Forall₂ also left right := by
  induction each with
  | nil => exact .nil
  | cons here _ ih =>
      refine .cons (weaken _ (.head _) _ (.head _) here) (ih fun one listed other member => ?_)
      exact weaken one (.tail _ listed) other (.tail _ member)

/-- One of the elements that are related to distinct ones is replaced. -/
theorem forall₂_replace {α β : Type} {related also : α → β → Prop} {labels : List α}
    {before after : List β} {old new : β} (distinct : labels.Nodup)
    (each : List.Forall₂ related labels (before ++ old :: after))
    (replaced : ∀ label ∈ labels, related label old → also label new ∧
      ∀ other ∈ labels, other ≠ label → ∀ one, related other one → also other one) :
    List.Forall₂ also labels (before ++ new :: after) := by
  induction before generalizing labels with
  | nil =>
      cases each with
      | @cons label _ rest _ here later =>
          obtain ⟨fresh, _⟩ := List.nodup_cons.1 distinct
          obtain ⟨changed, others⟩ := replaced label (.head _) here
          refine .cons changed (forall₂_imp_of_mem later fun other member one _ related => ?_)
          refine others other (.tail _ member) ?_ one related
          rintro rfl
          exact fresh member
  | cons first before ih =>
      cases each with
      | @cons label _ rest _ here later =>
          obtain ⟨fresh, distinct⟩ := List.nodup_cons.1 distinct
          obtain ⟨owner, listed, owned⟩ := exists_of_mem_left later.flip
            (List.mem_append_right before List.mem_cons_self)
          have apart : label ≠ owner := by
            rintro rfl
            exact fresh listed
          refine .cons ((replaced owner (.tail _ listed) owned).2 label (.head _) apart first here) ?_
          refine ih distinct later fun other member related => ?_
          obtain ⟨changed, others⟩ := replaced other (.tail _ member) related
          exact ⟨changed, fun third member => others third (.tail _ member)⟩

/-- Every worker keeps to its part of a graph. -/
def Floor.Aligned (registry : Registry) (graph : Graph) (start : Summaries) (floor : Floor) :
    Prop :=
  List.Forall₂ (fun label worker =>
    Fits registry (graph.inPart label) start floor.shared.summaries worker)
    graph.partLabels floor.workers

section Floor

variable {floor next : Floor}

theorem aligned_start (consistent : graph.Consistent registry []) (lastId : Nat) :
    (Floor.start graph.components start lastId).Aligned registry graph start := by
  unfold Floor.Aligned Floor.start
  rw [Graph.components_eq, List.map_map, List.forall₂_map_right_iff, List.forall₂_same]
  intro label _
  exact ⟨inTurn_nil, fun _ _ listed => (List.not_mem_nil listed).elim,
    .asking (consistent.part label) fun _ _ _ => rfl⟩

theorem Floor.Aligned.step (named : registry.Named) (aligned : floor.Aligned registry graph start)
    (step : Floor.Step registry floor next) : next.Aligned registry graph start := by
  cases step with
  | tick before worker after shared busy =>
      refine forall₂_replace graph.nodup_partLabels aligned fun label _ fits => ?_
      obtain ⟨fits, outside⟩ := fits.tick named
      refine ⟨fits, fun other _ apart one keeps => keeps.elsewhere named fun unit here => ?_⟩
      refine outside unit (decide_eq_false fun same => apart ?_)
      exact (Graph.inPart_iff.1 here).symm.trans same

theorem Floor.Aligned.steps (named : registry.Named) (aligned : floor.Aligned registry graph start)
    (steps : ReflTransGen (Floor.Step registry) floor next) :
    next.Aligned registry graph start := by
  induction steps with
  | refl => exact aligned
  | tail _ step ih => exact ih.step named step

end Floor

/-! ## Putting the parts together -/

/-- The stuck units of a part are put with those of the others. -/
def reportOf (stuck : List StuckUnit) : Option Error :=
  if stuck.isEmpty then none
  else some (.cycle ⟨stuck.mergeSort fun left right => (compare left.unit right.unit).isLE⟩)

/-- Where no unit has failed, the results are put together and the stuck units are put
in order. -/
theorem merge_eq_of_rested {parts : List (Option Error × Progress)}
    (rested : ∀ part ∈ parts, part.1 = part.2.graph.stuck?.map .cycle) (result : Result)
    (cycles : List CycleError) (nonempty : ∀ cycle ∈ cycles, cycle.stuck ≠ []) :
    merge result cycles parts = (⟨result.units ++ parts.flatMap (·.2.result.units)⟩,
      reportOf (cycles.flatMap (·.stuck) ++ parts.flatMap (·.2.graph.stuckUnits))) := by
  induction parts generalizing result cycles with
  | nil =>
      have empty : cycles.isEmpty = (cycles.flatMap (·.stuck)).isEmpty := by
        rw [Bool.eq_iff_iff, List.isEmpty_iff, List.isEmpty_iff, List.flatMap_eq_nil_iff]
        constructor
        · rintro rfl cycle listed
          exact (List.not_mem_nil listed).elim
        · intro every
          refine List.eq_nil_iff_forall_not_mem.2 fun cycle listed => ?_
          exact nonempty cycle listed (every cycle listed)
      simp only [merge, List.flatMap_nil, List.append_nil, reportOf, empty, CycleError.merge]
  | cons part rest ih =>
      obtain ⟨error, progress⟩ := part
      have here : error = progress.graph.stuck?.map .cycle := rested _ (.head _)
      have later := ih fun part member => rested part (.tail _ member)
      rw [Graph.stuck?_eq_ite] at here
      split at here
      next free =>
        subst here
        have nothing := List.isEmpty_iff.1 free
        simp only [merge, Option.map_none]
        rw [later _ _ nonempty]
        simp [Result.append, nothing]
      next waiting =>
        subst here
        have some : progress.graph.stuckUnits ≠ [] := by simpa using waiting
        simp only [merge, Option.map_some]
        rw [later _ _ fun cycle member => ?_]
        · simp [Result.append]
        · rcases List.mem_append.1 member with earlier | last
          · exact nonempty cycle earlier
          · rw [List.mem_singleton.1 last]
            exact some

/-- Where a unit has failed, a failure is reported. -/
theorem exists_merge_eq_failed {parts : List (Option Error × Progress)}
    (every : ∀ part ∈ parts, part.1 = part.2.graph.stuck?.map .cycle ∨
      ∃ error, part.1 = some (.unit error))
    (some : ∃ part ∈ parts, ∃ error, part.1 = some (.unit error)) (result : Result)
    (cycles : List CycleError) :
    ∃ error, (merge result cycles parts).2 = Option.some (.unit error) := by
  induction parts generalizing result cycles with
  | nil =>
      obtain ⟨_, listed, _⟩ := some
      cases listed
  | cons part rest ih =>
      obtain ⟨error, progress⟩ := part
      have later := ih fun part member => every part (.tail _ member)
      rcases every _ (.head _) with here | ⟨failure, here⟩
      · dsimp only at here
        subst here
        have below : ∃ part ∈ rest, ∃ error, part.1 = Option.some (.unit error) := by
          obtain ⟨part, listed, failure, failed⟩ := some
          rcases List.mem_cons.1 listed with rfl | listed
          · cases stuck : progress.graph.stuck? <;> simp [stuck] at failed
          · exact ⟨part, listed, failure, failed⟩
        cases stuck : progress.graph.stuck? with
        | none => exact later below _ _
        | some cycle => exact later below _ _
      · dsimp only at here
        subst here
        exact ⟨failure, rfl⟩

/-! ## Ends of interleavings -/

/-- Each part has been processed as it is in a run of the whole. -/
structure SameParts (graph : Graph) (alone together : Result) : Prop where
  effects : together.effects = alone.effects
  receivers : together.receivers = alone.receivers
  changes : together.changes = alone.changes
  units : together.order.Perm alone.order
  parts : ∀ part ∈ graph.components,
    together.order.filter part.nodes.contains = alone.order.filter part.nodes.contains
  skipped : together.skipped.Perm alone.skipped

/-- An interleaving has ended as a run of the whole has. -/
inductive EndsLike (graph : Graph) (alone together : Result) : Option Error → Option Error → Prop
  | finished (same : SameParts graph alone together) : EndsLike graph alone together none none
  | stuck (cycle : CycleError) (same : SameParts graph alone together) :
      EndsLike graph alone together (some (.cycle cycle)) (some (.cycle cycle))
  | failed (error other : UnitError) :
      EndsLike graph alone together (some (.unit error)) (some (.unit other))

section Ends

variable {floor : Floor} {alone : Progress}

/-- The constructs that are passed over depend on the units and the findings only. -/
theorem perm_skipped {left right : Result} (distinct : right.order.Nodup)
    (units : left.order.Perm right.order) (findings : AgreeOnCommon left right) :
    left.skipped.Perm right.skipped := by
  let skipped (unit : UnitId) : List (UnitId × Eval.Skipped) :=
    ((right.table.find? unit).map fun found => found.skipped.map (unit, ·)).getD []
  have second : right.skipped = right.order.flatMap skipped := by
    rw [Result.skipped, Result.order, List.flatMap_map]
    refine List.flatMap_congr fun entry listed => ?_
    obtain ⟨unit, found⟩ := entry
    simp [skipped, (find?_table distinct unit found).2 listed]
  have first : left.skipped = left.order.flatMap skipped := by
    rw [Result.skipped, Result.order, List.flatMap_map]
    refine List.flatMap_congr fun entry listed => ?_
    obtain ⟨unit, found⟩ := entry
    obtain ⟨⟨_, other⟩, also, rfl⟩ := List.mem_map.1
      (units.mem_iff.1 (List.mem_map.2 ⟨_, listed, rfl⟩))
    have same := (findings _ found other listed also).skipped
    simp [skipped, (find?_table distinct _ other).2 also, same]
  rw [first, second]
  exact units.flatMap_right skipped

theorem Floor.Aligned.rested (aligned : floor.Aligned registry graph start) (done : floor.IsDone)
    (unfailing : ∀ worker ∈ floor.workers, ∀ error, worker.error ≠ some (.unit error)) :
    List.Forall₂ (fun label worker =>
      Fits registry (graph.inPart label) start floor.shared.summaries worker ∧
        Rested (registry.restrict (graph.inPart label)) worker)
      graph.partLabels floor.workers := by
  refine forall₂_imp_of_mem aligned fun label _ worker member fits => ⟨fits, ?_⟩
  rcases fits.cases (done worker member) with rested | ⟨_, _, _, _, failed⟩
  · exact rested
  · obtain ⟨error, same⟩ := failed.error
    exact (unfailing worker member error same).elim

/-- Where no worker has failed, the outcome is put together from what the workers have. -/
theorem outcome_of_rested
    (rested : ∀ worker ∈ floor.workers, worker.error = worker.graph.stuck?.map .cycle) :
    floor.outcome.result.units = floor.workers.flatMap (·.result.units) ∧
      floor.outcome.error = reportOf (floor.workers.flatMap (·.graph.stuckUnits)) := by
  have each : ∀ part ∈ floor.workers.map fun worker => (worker.error,
      (⟨worker.graph, floor.shared.summaries, floor.shared.lastId, [], worker.result⟩ : Progress)),
      part.1 = part.2.graph.stuck?.map .cycle := by
    intro part listed
    obtain ⟨worker, member, rfl⟩ := List.mem_map.1 listed
    exact rested worker member
  unfold Floor.outcome
  rw [merge_eq_of_rested each .empty [] fun _ listed => (List.not_mem_nil listed).elim]
  simp [Result.empty, List.flatMap_map]

/-- Every unit that is known has one of the labels. -/
theorem label_mem_of_known (consistent : graph.Consistent registry [])
    (known : (registry.method? unit).isSome = true) :
    graph.labels.of unit ∈ graph.partLabels := by
  obtain ⟨node, found, _⟩ := Graph.Describes.exists_node consistent known
  exact Graph.mem_partLabels found

theorem contains_part (consistent : graph.Consistent registry [])
    (known : (registry.method? unit).isSome = true) (label : UnitId) :
    (graph.part label).nodes.contains unit = decide (graph.labels.of unit = label) := by
  obtain ⟨node, found, _⟩ := Graph.Describes.exists_node consistent known
  rw [Table.contains, Graph.find?_part, found]
  change ((some node).filter fun _ => graph.inPart label unit).isSome = graph.inPart label unit
  cases graph.inPart label unit <;> rfl

theorem closed_inPart (consistent : graph.Consistent registry []) (label : UnitId)
    {one other : UnitId} (calls : Graph.Calls registry one other)
    (inside : graph.inPart label one = true) : graph.inPart label other = true := by
  rw [Graph.inPart_iff] at inside ⊢
  rw [← Graph.Describes.label_eq_of_calls consistent calls, inside]

/-- The cycles of the parts are the cycles of the whole. -/
theorem reportOf_eq {stuck : List StuckUnit}
    (exact : CycleError.Exact registry ⟨alone.graph.stuckUnits⟩)
    (same : stuck.Perm alone.graph.stuckUnits) :
    reportOf stuck = alone.graph.stuck?.map .cycle := by
  have empty : stuck.isEmpty = alone.graph.stuckUnits.isEmpty := by
    rw [Bool.eq_iff_iff, List.isEmpty_iff, List.isEmpty_iff]
    exact ⟨fun nothing => (nothing ▸ same).nil_eq.symm, fun nothing => (nothing ▸ same).eq_nil⟩
  rw [reportOf, exact.mergeSort_eq same, empty, Graph.stuck?_eq_ite]
  split <;> rfl

section Rested

variable (consistent : graph.Consistent registry []) (named : registry.Named)
variable (sound : Sound registry start alone) (idle : alone.graph.ready.isEmpty = true)
variable (every : InTurn (Foremost registry) alone.result.order)
variable (rested : List.Forall₂ (fun label worker =>
  Fits registry (graph.inPart label) start floor.shared.summaries worker ∧
    Rested (registry.restrict (graph.inPart label)) worker) graph.partLabels floor.workers)

include consistent sound idle every rested

theorem order_of_rested : floor.workers.flatMap (·.result.order) =
    graph.partLabels.flatMap fun label => alone.result.order.filter (graph.labels.of · = label) := by
  refine flatMap_eq_of_forall₂ (rested.flip.imp fun worker label both => ?_)
  exact both.2.order_eq sound idle every both.1 (closed_inPart consistent label)

theorem stuckUnits_of_rested :
    (floor.workers.flatMap (·.graph.stuckUnits)).Perm alone.graph.stuckUnits := by
  have parts : floor.workers.flatMap (·.graph.stuckUnits) = graph.partLabels.flatMap fun label =>
      alone.graph.stuckUnits.filter (graph.labels.of ·.unit = label) := by
    refine flatMap_eq_of_forall₂ (rested.flip.imp fun worker label both => ?_)
    exact both.2.stuckUnits_eq sound idle every both.1 (closed_inPart consistent label)
  rw [parts]
  refine perm_flatMap_filter graph.nodup_partLabels _ fun entry listed => ?_
  have exact := sound.consistent.exact_stuckUnits every.calleesFirst idle
  have leads := (exact.units entry.unit).1 (List.mem_map.2 ⟨entry, listed, rfl⟩)
  exact label_mem_of_known consistent (Graph.isSome_of_leadsToCycle leads)

include named

/-- Where neither the run of the whole nor a worker has failed, all has been found out
alike. -/
theorem sameParts_of_rested {result : Result}
    (units : result.units = floor.workers.flatMap (·.result.units)) :
    SameParts graph alone.result result := by
  have order : result.order = graph.partLabels.flatMap fun label =>
      alone.result.order.filter (graph.labels.of · = label) := by
    rw [← order_of_rested consistent sound idle every rested, Result.order, units, List.map_flatMap]
    rfl
  have perm : result.order.Perm alone.result.order := by
    rw [order]
    exact perm_flatMap_filter graph.nodup_partLabels _ fun unit listed =>
      label_mem_of_known consistent (every.isSome_method? listed)
  have findings : AgreeOnCommon result alone.result := by
    intro unit found other listed also
    rw [units] at listed
    obtain ⟨worker, member, listed⟩ := List.mem_flatMap.1 listed
    obtain ⟨label, _, fits, _⟩ := exists_of_mem_left rested.flip member
    have ends := every.calleesFirst.acc (List.mem_map.2 ⟨_, also, rfl⟩)
    exact (fits.accounted.agree named sound.accounted ends listed also).1
  have output := sameOutput_of_perm (perm.nodup_iff.2 sound.distinct) perm findings
  refine ⟨output.effects, output.receivers, output.changes, perm, fun part listed => ?_,
    perm_skipped sound.distinct perm findings⟩
  rw [Graph.components_eq] at listed
  obtain ⟨label, member, rfl⟩ := List.mem_map.1 listed
  have contains : ∀ unit ∈ alone.result.order, (graph.part label).nodes.contains unit =
      decide (graph.labels.of unit = label) :=
    fun unit listed => contains_part consistent (every.isSome_method? listed) label
  rw [List.filter_congr contains, List.filter_congr fun unit listed =>
    contains unit (perm.mem_iff.1 listed), order]
  exact filter_flatMap_filter graph.nodup_partLabels _ member

end Rested

/-- Where all workers have run out of ready units, the run of the whole does not fail. -/
theorem not_refuses_of_rested (named : registry.Named) (consistent : graph.Consistent registry [])
    (sound : Sound registry start alone) (first : CalleesFirst registry alone.result.order)
    (rested : List.Forall₂ (fun label worker =>
      Fits registry (graph.inPart label) start floor.shared.summaries worker ∧
        Rested (registry.restrict (graph.inPart label)) worker) graph.partLabels floor.workers)
    {last : Progress}
    (refuses : Refuses registry alone.result.order.reverse alone unit method last) : False := by
  have settled : Graph.Settled registry alone.result.order unit :=
    fun other calls => List.mem_reverse.1 (refuses.settled other calls)
  have ends : Acc (Function.swap (Graph.Calls registry)) unit :=
    ⟨_, fun other calls => first.acc (settled other calls)⟩
  have known : (registry.method? unit).isSome = true := by rw [refuses.known]; rfl
  obtain ⟨worker, _, fits, rested⟩ := exists_of_mem_left rested (label_mem_of_known consistent known)
  obtain ⟨⟨_, other⟩, listed, rfl⟩ := List.mem_map.1
    (rested.mem_of_acc ends known (Graph.inPart_iff.2 rfl))
  have reads : Reads registry start alone.summaries alone.summaries _ :=
    ⟨fun _ _ => rfl, sound.untouched _ (by simpa using refuses.fresh)⟩
  obtain ⟨found, summary, analyzed⟩ := sound.accounted.exists_analyzed named fits.accounted ends
    refuses.known reads settled listed alone.lastId
  exact refuses.unanalyzed found summary analyzed

/-- A failure of a worker is reported. -/
theorem exists_outcome_failed (aligned : floor.Aligned registry graph start) (done : floor.IsDone)
    (failure : ∃ worker ∈ floor.workers, ∃ error, worker.error = some (.unit error)) :
    ∃ error, floor.outcome.error = some (.unit error) := by
  refine exists_merge_eq_failed (fun part listed => ?_) ?_ .empty []
  · obtain ⟨worker, member, rfl⟩ := List.mem_map.1 listed
    obtain ⟨label, _, fits⟩ := exists_of_mem_left aligned.flip member
    rcases Fits.cases fits (done worker member) with rested | ⟨_, _, _, _, failed⟩
    · exact .inl rested.error
    · exact .inr failed.error
  · obtain ⟨worker, member, failed⟩ := failure
    exact ⟨_, List.mem_map.2 ⟨worker, member, rfl⟩, failed⟩

/-- However the steps are interleaved, the end is that of a run of the whole. -/
theorem endsLike_of_ends {error : Option Error} {last : Progress} (named : registry.Named)
    (consistent : graph.Consistent registry []) (sound : Sound registry start alone)
    (ends : Ends registry alone error last) (every : InTurn (Foremost registry) last.result.order)
    (aligned : floor.Aligned registry graph start) (done : floor.IsDone) :
    EndsLike graph last.result floor.outcome.result error floor.outcome.error := by
  by_cases failure : ∃ worker ∈ floor.workers, ∃ error, worker.error = some (.unit error)
  · obtain ⟨other, reported⟩ := exists_outcome_failed aligned done failure
    rw [reported]
    rcases ends.cases sound.consistent with ⟨idle, rfl, rfl⟩ | ⟨_, _, unitError, rfl, _⟩
    · obtain ⟨worker, member, error, same⟩ := failure
      obtain ⟨label, _, fits⟩ := exists_of_mem_left aligned.flip member
      rcases Fits.cases fits (done worker member) with rested | ⟨_, _, _, _, failed⟩
      · rw [rested.error] at same
        cases stuck : worker.graph.stuck? <;> simp [stuck] at same
      · exact (Fits.not_failed named sound fits idle failed).elim
    · exact .failed unitError other
  · have rested := aligned.rested done fun worker member error same =>
      failure ⟨worker, member, error, same⟩
    rcases ends.cases sound.consistent with ⟨idle, rfl, rfl⟩ | ⟨_, _, _, rfl, refuses⟩
    · obtain ⟨units, report⟩ := outcome_of_rested fun worker member => by
        obtain ⟨label, _, _, rested⟩ := exists_of_mem_left rested.flip member
        exact rested.error
      have same := sameParts_of_rested consistent named sound idle every rested units
      rw [report, reportOf_eq (sound.consistent.exact_stuckUnits every.calleesFirst idle)
        (stuckUnits_of_rested consistent sound idle every rested)]
      cases last.graph.stuck? with
      | none => exact .finished same
      | some cycle => exact .stuck cycle same
    · rw [refuses.kept] at every
      exact (not_refuses_of_rested named consistent sound every.calleesFirst rested refuses).elim

end Ends

/-- Side by side is as good as one after the other.  The run with several workers is an
interleaving of the steps of the parts, no interleaving goes on for ever, and whichever
it is, it ends as the run of the whole does.  The evaluation of a unit is one atomic step of
a worker here. -/
theorem interleavings_endLike (program : Code.Program) {graph : Graph}
    (built : Graph.build (.ofProgram program) .lexicographic = .ok graph) (summaries : Summaries) :
    (∀ workers ≥ 2, ∃ floor,
        ReflTransGen (Floor.Step (.ofProgram program)) (.start graph.components summaries 0) floor ∧
        floor.IsDone ∧ run (.ofProgram program) graph summaries workers = floor.outcome) ∧
      (WellFounded fun next floor => Floor.Step (.ofProgram program) floor next) ∧
      ∀ floor,
        ReflTransGen (Floor.Step (.ofProgram program)) (.start graph.components summaries 0) floor →
        floor.IsDone → ∀ few < 2,
          EndsLike graph (run (.ofProgram program) graph summaries few).result floor.outcome.result
            (run (.ofProgram program) graph summaries few).error floor.outcome.error := by
  have named := Registry.named_ofProgram program
  have consistent := Graph.consistent_build named built
  refine ⟨fun workers many => exists_interleaving _ graph summaries many,
    Floor.wellFounded_step _, fun floor steps done few less => ?_⟩
  obtain ⟨middle, alone, ends⟩ := executes_runGraph (.ofProgram program) graph summaries 0
  have sound := (sound_start named built summaries 0).steps named alone
  have every := foremost_runGraph consistent summaries 0
  have aligned := (aligned_start consistent 0).steps named steps
  have ended := endsLike_of_ends named consistent sound ends every aligned done
  simp only [run, if_pos less]
  exact ended

/-- Two methods that call nothing, and one that calls the first of them. -/
def workshop : Code.Program := ⟨[⟨0, "Bench", "", [⟨0, "Bench", ["next"]⟩],
  [.plain "cut" [.assign 1 (some ⟨1, Code.this, "next"⟩) (.new 1 "Bench" "" [])],
    .plain "glue" [.ret 2 [.reference ⟨2, Code.this, "next"⟩]],
    .plain "sand" [.call 3 "" "cut" []]]⟩]⟩

/-- In the workshop, the units of one part are not next to each other in the run of the
whole. -/
theorem interleavings_endLike_workshop :
    ∃ graph floor, Graph.build (.ofProgram workshop) .lexicographic = .ok graph ∧
      ReflTransGen (Floor.Step (.ofProgram workshop)) (.start graph.components ∅ 0) floor ∧
      floor.IsDone ∧
      (run (.ofProgram workshop) graph ∅ 1).result.order =
        [⟨"Bench", "cut"⟩, ⟨"Bench", "glue"⟩, ⟨"Bench", "sand"⟩] ∧
      floor.outcome.result.order = [⟨"Bench", "cut"⟩, ⟨"Bench", "sand"⟩, ⟨"Bench", "glue"⟩] ∧
      EndsLike graph (run (.ofProgram workshop) graph ∅ 1).result floor.outcome.result none none := by
  have shown : ((Graph.build (.ofProgram workshop) .lexicographic).toOption.map fun graph =>
      ((run (.ofProgram workshop) graph ∅ 1).result.order,
        (run (.ofProgram workshop) graph ∅ 1).error,
        (run (.ofProgram workshop) graph ∅ 2).result.order,
        (run (.ofProgram workshop) graph ∅ 2).error)) =
      some ([⟨"Bench", "cut"⟩, ⟨"Bench", "glue"⟩, ⟨"Bench", "sand"⟩], none,
        [⟨"Bench", "cut"⟩, ⟨"Bench", "sand"⟩, ⟨"Bench", "glue"⟩], none) := by decide +kernel
  cases built : Graph.build (.ofProgram workshop) .lexicographic with
  | error error =>
      rw [built] at shown
      cases shown
  | ok graph =>
      rw [built] at shown
      simp only [Except.toOption, Option.map_some, Option.some.injEq, Prod.mk.injEq] at shown
      obtain ⟨order, error, rivalOrder, rivalError⟩ := shown
      obtain ⟨floor, steps, done, same⟩ := (interleavings_endLike workshop built ∅).1 2 (by decide)
      have ends := (interleavings_endLike workshop built ∅).2.2 floor steps done 1 (by decide)
      rw [same] at rivalOrder rivalError
      rw [error, rivalError] at ends
      exact ⟨graph, floor, rfl, steps, done, order, rivalOrder, ends⟩

end Schedule

end Custody
