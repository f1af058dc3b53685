import Custody.Proofs.Schedule.Conclusion
import Custody.Report

/-!
# What a report says of each unit

Where everything is reported and nothing suppressed, a report on a run in which no unit
fails speaks of every unit once.  Of a unit that has been processed it says what becomes
of each parameter that has a name, and that the receiver is changed if it is; of a unit
that is stuck it says that it waits for a cycle.  It says nothing else.
-/

namespace Custody

/-- No unit is registered twice. -/
theorem Registry.nodup_units {registry : Registry} (named : registry.Named) :
    (registry.methods.map (·.unit)).Nodup := by
  have units : registry.methods.map (·.unit) = registry.classes.entries.flatMap fun entry =>
      entry.2.methods.entries.map fun declared => (⟨entry.1, declared.1⟩ : UnitId) := by
    simp only [methods, Table.values, List.map_flatMap, List.flatMap_map, List.map_map]
    refine List.flatMap_congr fun entry listed => List.map_congr_left fun declared member => ?_
    refine named ⟨entry.1, declared.1⟩ declared.2 ?_
    rw [method?, Table.find?_eq_some_iff.2 listed, Option.bind_some]
    exact Table.find?_eq_some_iff.2 member
  rw [units, List.nodup_flatMap]
  refine ⟨fun entry _ => ?_, ?_⟩
  · refine List.pairwise_map.2 (entry.2.methods.ascending.imp fun {one other} less => ?_)
    rintro same
    rw [(UnitId.mk.inj same).2] at less
    simp at less
  · refine registry.classes.ascending.imp fun {one other} less => ?_
    intro unit here there
    obtain ⟨_, _, rfl⟩ := List.mem_map.1 here
    obtain ⟨_, _, same⟩ := List.mem_map.1 there
    rw [(UnitId.mk.inj same).1] at less
    simp at less

namespace Report

open Schedule (Outcome)

/-! ## What there is to say -/

/-- The places where a unit changes something for the first time. -/
def places (outcome : Outcome) (unit : UnitId) (name : String) : List (Int × String) :=
  match (outcome.result.changes.find? unit).bind (·.find? name) with
  | some place => if place = 0 then [] else [(place, "Changed here")]
  | none => []

/-- What a report calls an effect. -/
def verdict? : Effect → Option String
  | .doesChange => some " is changed (ae:change)"
  | .passForward => some " is passed forward (ae:forward)"
  | .doesNotChange => some " is not changed (ae:unchanged)"
  | .unknown => none

/-- The diagnostic names the recorded effect on a parameter. -/
def TellsParam (outcome : Outcome) (method : Method) (param : Code.Param)
    (diagnostic : Diagnostic) : Prop :=
  ∃ effect verdict, (outcome.summaries.of method).params.find? param.name = some effect ∧
    verdict? effect = some verdict ∧
    diagnostic = {
      pos := param.pos
      endPos := 0
      message := "Parameter '" ++ param.name ++ "' of " ++ method.displayName ++ verdict
      related := if effect = .doesChange then places outcome method.unit param.name else [] }

/-- The diagnostic about the receiver, if there is something to say. -/
def receiverNotice (outcome : Outcome) (method : Method) : List Diagnostic :=
  if method.decl.isConstructor = false ∧
      (outcome.summaries.of method).receiver = .doesChange then
    [{ pos := method.decl.pos
       endPos := 0
       message := "Receiver of " ++ method.displayName ++ " is changed (ae:change)"
       related := places outcome method.unit Code.this }]
  else []

/-- The diagnostic names what a unit waits for in vain. -/
def TellsCycle (registry : Registry) (method : Method) (diagnostic : Diagnostic) : Prop :=
  ∃ waitFor : List Method,
    (waitFor.Pairwise fun left right => compare left.unit right.unit = .lt) ∧
    (∀ other, other ∈ waitFor ↔ registry.method? other.unit = some other ∧
      Graph.Calls registry method.unit other.unit ∧
      LeadsToCycle (Graph.Calls registry) other.unit) ∧
    diagnostic = {
      pos := method.decl.pos
      endPos := 0
      message := "Effects of " ++ method.displayName ++ " are unknown, cyclic dependency on " ++
        ", ".intercalate (waitFor.map (·.displayName)) ++ " (ae:cycle)"
      related := [] }

/-- All there is to say of a unit. -/
inductive Covers (registry : Registry) (outcome : Outcome) (method : Method) :
    List Diagnostic → Prop
  | processed {params : List Diagnostic}
      (free : ¬LeadsToCycle (Graph.Calls registry) method.unit)
      (each : List.Forall₂ (TellsParam outcome method)
        (method.params.filter fun param => !"$".isPrefixOf param.name) params) :
      Covers registry outcome method (receiverNotice outcome method ++ params)
  | stuck {diagnostic : Diagnostic} (leads : LeadsToCycle (Graph.Calls registry) method.unit)
      (tells : TellsCycle registry method diagnostic) :
      Covers registry outcome method [diagnostic]

/-- What is said of the effects of a unit. -/
def Reporter.unitEffects (reporter : Reporter) (result : Schedule.Result) (unit : UnitId) :
    List Diagnostic :=
  match reporter.registry.method? unit, result.table.find? unit with
  | some method, some found =>
      reporter.receiver method found ++ method.params.flatMap (reporter.param method found)
  | _, _ => []

/-- What is said of a unit that is stuck. -/
def Reporter.stuckUnit? (reporter : Reporter) (entry : StuckUnit) : Option Diagnostic :=
  (reporter.registry.method? entry.unit).map fun method =>
    .at method.decl.pos ("Effects of " ++ method.displayName ++
      " are unknown, cyclic dependency on " ++
      ", ".intercalate ((entry.waitFor.filterMap reporter.registry.method?).map (·.displayName)) ++
      " (ae:cycle)")

/-- The diagnostics about the units that are stuck. -/
def Reporter.stuck (reporter : Reporter) (outcome : Outcome) : List Diagnostic :=
  match outcome.error with
  | some (.cycle cycle) => reporter.cycle cycle
  | _ => []

/-- Everything is reported and nothing suppressed. -/
structure Reporter.Unrestricted (registry : Registry) (reporter : Reporter) : Prop where
  registry : reporter.registry = registry
  suppresses : ∀ pos, reporter.suppresses pos = false
  enabled : ∀ bit ∈ [Settings.Report.changes, Settings.Report.forward, Settings.Report.unchanged,
    Settings.Report.unsupported, Settings.Report.receiver], reporter.mask.enabled bit = true

/-! ## What is said -/

section Said

variable {registry : Registry} {outcome : Outcome} {method : Method} {found : Eval.Result}
variable {reporter : Reporter} {start : Summaries}

theorem filtered_eq (free : reporter.Unrestricted registry) (diagnostics : List Diagnostic) :
    reporter.filtered diagnostics = diagnostics := by
  refine List.filter_eq_self.2 fun diagnostic _ => ?_
  rw [free.suppresses]
  rfl

theorem changed_eq {unit : UnitId} (listed : outcome.result.table.find? unit = some found)
    (pos : Int) (message name : String) :
    Reporter.changed pos message (found.changes.find? name) =
      ⟨pos, 0, message, places outcome unit name⟩ := by
  have told : (outcome.result.changes.find? unit).bind (·.find? name) =
      found.changes.find? name := by
    rw [Schedule.Result.changes, Table.find?_map, listed]
    rfl
  unfold places Reporter.changed
  rw [told]
  cases found.changes.find? name with
  | none => rfl
  | some place =>
      dsimp only
      split <;> rfl

theorem receiver_eq (free : reporter.Unrestricted registry)
    (listed : outcome.result.table.find? method.unit = some found)
    (recorded : (outcome.summaries.of method).receiver = found.receiver) :
    reporter.receiver method found = receiverNotice outcome method := by
  unfold Reporter.receiver receiverNotice
  rw [free.enabled _ (by simp), recorded, changed_eq listed]
  simp

/-- There is one diagnostic about a parameter with a name. -/
theorem exists_param_eq (free : reporter.Unrestricted registry)
    (listed : outcome.result.table.find? method.unit = some found) {param : Code.Param}
    (recorded : ∃ effect, effect ≠ .unknown ∧ found.effects.find? param.name = some effect ∧
      (outcome.summaries.of method).params.find? param.name = some effect)
    (hasName : "$".isPrefixOf param.name = false) :
    ∃ diagnostic, reporter.param method found param = [diagnostic] ∧
      TellsParam outcome method param diagnostic := by
  obtain ⟨effect, known, said, written⟩ := recorded
  simp only [Reporter.param, hasName, said]
  cases effect with
  | unknown => exact (known rfl).elim
  | doesChange =>
      simp only [free.enabled Settings.Report.changes (by simp), changed_eq listed]
      exact ⟨_, rfl, _, _, written, rfl, rfl⟩
  | passForward =>
      simp only [free.enabled Settings.Report.forward (by simp)]
      exact ⟨_, rfl, _, _, written, rfl, rfl⟩
  | doesNotChange =>
      simp only [free.enabled Settings.Report.unchanged (by simp)]
      exact ⟨_, rfl, _, _, written, rfl, rfl⟩

theorem tells_params (free : reporter.Unrestricted registry)
    (listed : outcome.result.table.find? method.unit = some found) (params : List Code.Param)
    (recorded : ∀ param ∈ params, ∃ effect, effect ≠ .unknown ∧
      found.effects.find? param.name = some effect ∧
      (outcome.summaries.of method).params.find? param.name = some effect) :
    List.Forall₂ (TellsParam outcome method)
      (params.filter fun param => !"$".isPrefixOf param.name)
      (params.flatMap (reporter.param method found)) := by
  induction params with
  | nil => exact .nil
  | cons param rest ih =>
      have later := ih fun other member => recorded other (.tail _ member)
      rw [List.flatMap_cons, List.filter_cons]
      cases hasName : "$".isPrefixOf param.name with
      | true =>
          have silent : reporter.param method found param = [] := if_pos hasName
          rw [silent]
          exact later
      | false =>
          obtain ⟨diagnostic, said, tells⟩ :=
            exists_param_eq free listed (recorded param (.head _)) hasName
          rw [said]
          exact .cons tells later

theorem exists_unitEffects_eq (free : reporter.Unrestricted registry) (named : registry.Named)
    (concludes : outcome.Concludes registry start) (known : registry.method? method.unit = some method)
    (processed : method.unit ∈ outcome.result.order) :
    ∃ params, reporter.unitEffects outcome.result method.unit =
        receiverNotice outcome method ++ params ∧
      List.Forall₂ (TellsParam outcome method)
        (method.params.filter fun param => !"$".isPrefixOf param.name) params := by
  obtain ⟨⟨_, found⟩, member, same⟩ := List.mem_map.1 processed
  dsimp only at same
  subst same
  obtain ⟨account⟩ := concludes.accounts _ found member
  obtain ⟨receiver, params⟩ := account.recorded named
  rw [← Option.some.inj (known.symm.trans account.known)] at receiver params
  have listed := (Schedule.find?_table concludes.distinct _ found).2 member
  refine ⟨_, ?_, tells_params free listed method.params params⟩
  rw [Reporter.unitEffects, free.registry, known, listed, ← receiver_eq free listed receiver]

/-- What is said of a stuck unit names the units that it waits for. -/
theorem exists_stuckUnit?_eq (free : reporter.Unrestricted registry) (named : registry.Named)
    {cycle : CycleError} (exact : cycle.Exact registry) {entry : StuckUnit}
    (listed : entry ∈ cycle.stuck) (known : registry.method? entry.unit = some method) :
    ∃ diagnostic, reporter.stuckUnit? entry = some diagnostic ∧
      TellsCycle registry method diagnostic := by
  obtain ⟨ascending, waits⟩ := exact.waitFor entry listed
  refine ⟨_, by rw [Reporter.stuckUnit?, free.registry, known]; rfl,
    entry.waitFor.filterMap registry.method?, ?_, fun other => ?_, rfl⟩
  · refine List.pairwise_filterMap.2 (ascending.imp fun {left right} less one here other there => ?_)
    rw [named left one here, named right other there]
    exact less
  · rw [List.mem_filterMap, named entry.unit method known]
    constructor
    · rintro ⟨unit, waiting, found⟩
      rw [named unit other found]
      exact ⟨found, (waits unit).1 waiting⟩
    · rintro ⟨found, both⟩
      exact ⟨other.unit, (waits other.unit).2 both, found⟩

/-- The diagnostics about stuck units are those of the units that lead to a cycle. -/
theorem exists_exact_stuck (free : reporter.Unrestricted registry)
    (concludes : outcome.Concludes registry start) :
    ∃ cycle : CycleError, cycle.Exact registry ∧
      reporter.stuck outcome = cycle.stuck.filterMap reporter.stuckUnit? := by
  unfold Reporter.stuck
  rcases concludes.report with ⟨finished, acyclic⟩ | ⟨cycle, reported, exact⟩
  · rw [finished]
    refine ⟨⟨[]⟩, ⟨.nil, fun unit => ?_, fun _ listed => (List.not_mem_nil listed).elim⟩, rfl⟩
    exact ⟨fun listed => (List.not_mem_nil listed).elim, fun leads => (acyclic unit leads).elim⟩
  · rw [reported]
    exact ⟨cycle, exact, filtered_eq free _⟩

end Said

/-! ## Everything that is said -/

/-- Of a list with distinct keys, one element has the key of an element. -/
theorem filter_key_eq {α β : Type} [DecidableEq β] {key : α → β} {list : List α}
    (distinct : (list.map key).Nodup) {one : α} (member : one ∈ list) :
    list.filter (key · = key one) = [one] := by
  have inner : ∀ other ∈ list, decide (key other = key one) = true → other = one :=
    fun other listed same => List.inj_on_of_nodup_map distinct listed member (by simpa using same)
  refine List.perm_singleton.1 ((List.perm_ext_iff_of_nodup (distinct.of_map.filter _)
    (List.nodup_singleton one)).2 fun other => ?_)
  rw [List.mem_filter, List.mem_singleton]
  constructor
  · exact fun both => inner other both.1 both.2
  · rintro rfl
    exact ⟨member, by simp⟩

/-- All that is said of a unit. -/
def Reporter.unitReport (reporter : Reporter) (result : Schedule.Result) (stuck : List StuckUnit)
    (method : Method) : List Diagnostic :=
  (result.order.filter (· = method.unit)).flatMap (reporter.unitEffects result) ++
    (stuck.filter (·.unit = method.unit)).filterMap reporter.stuckUnit?

section Everything

variable {registry : Registry} {outcome : Outcome} {reporter : Reporter} {start : Summaries}
variable {cycle : CycleError}

/-- What is said of a unit is what there is to say. -/
theorem covers_unitReport {method : Method} (free : reporter.Unrestricted registry)
    (named : registry.Named) (concludes : outcome.Concludes registry start)
    (exact : cycle.Exact registry) (known : registry.method? method.unit = some method) :
    Covers registry outcome method (reporter.unitReport outcome.result cycle.stuck method) := by
  unfold Reporter.unitReport
  by_cases leads : LeadsToCycle (Graph.Calls registry) method.unit
  · have unprocessed : outcome.result.order.filter (· = method.unit) = [] := by
      refine List.filter_eq_nil_iff.2 fun unit listed same => ?_
      rw [of_decide_eq_true same] at listed
      exact ((concludes.processed _).1 listed).2 leads
    have distinct : (cycle.stuck.map (·.unit)).Nodup := exact.ascending.imp fun {one other} less => by
      rintro rfl
      simp at less
    obtain ⟨entry, listed, same⟩ := List.mem_map.1 ((exact.units method.unit).2 leads)
    rw [← same] at known
    obtain ⟨diagnostic, said, tells⟩ := exists_stuckUnit?_eq free named exact listed known
    rw [unprocessed, ← same, filter_key_eq distinct listed, List.flatMap_nil, List.nil_append,
      List.filterMap_cons_some said, List.filterMap_nil]
    exact .stuck leads tells
  · have processed := (concludes.processed method.unit).2
      ⟨Option.isSome_iff_exists.2 ⟨method, known⟩, leads⟩
    have unstuck : cycle.stuck.filter (·.unit = method.unit) = [] := by
      refine List.filter_eq_nil_iff.2 fun entry listed same => leads ((exact.units _).1 ?_)
      exact List.mem_map.2 ⟨entry, listed, of_decide_eq_true same⟩
    have distinct : (outcome.result.order.map id).Nodup := by
      rw [List.map_id]
      exact concludes.distinct
    have once : outcome.result.order.filter (· = method.unit) = [method.unit] :=
      filter_key_eq distinct processed
    obtain ⟨params, said, each⟩ := exists_unitEffects_eq free named concludes known processed
    rw [once, unstuck, List.flatMap_cons, List.flatMap_nil, List.append_nil, said,
      List.filterMap_nil, List.append_nil]
    exact .processed leads each

/-- Nothing else is said. -/
theorem perm_unitReport (named : registry.Named) (concludes : outcome.Concludes registry start)
    (exact : cycle.Exact registry) :
    (outcome.result.order.flatMap (reporter.unitEffects outcome.result) ++
        cycle.stuck.filterMap reporter.stuckUnit?).Perm
      (registry.methods.flatMap (reporter.unitReport outcome.result cycle.stuck)) := by
  have units := Registry.nodup_units named
  have listed : ∀ {unit}, (registry.method? unit).isSome = true →
      unit ∈ registry.methods.map (·.unit) := by
    intro unit known
    obtain ⟨method, known⟩ := Option.isSome_iff_exists.1 known
    have same := named unit method known
    exact List.mem_map.2 ⟨method, (Registry.mem_methods_iff named method).2 (same ▸ known), same⟩
  have order : ((registry.methods.map (·.unit)).flatMap fun unit =>
      outcome.result.order.filter (id · = unit)).Perm outcome.result.order :=
    perm_flatMap_filter units _ fun unit member => listed ((concludes.processed unit).1 member).1
  have stuck : ((registry.methods.map (·.unit)).flatMap fun unit =>
      cycle.stuck.filter (·.unit = unit)).Perm cycle.stuck :=
    perm_flatMap_filter units _ fun entry member => listed
      (Graph.isSome_of_leadsToCycle ((exact.units _).1 (List.mem_map.2 ⟨entry, member, rfl⟩)))
  have effects := order.flatMap_right (reporter.unitEffects outcome.result)
  have cycles := stuck.filterMap reporter.stuckUnit?
  rw [List.flatMap_map, List.flatMap_assoc] at effects
  rw [List.flatMap_map, List.filterMap_flatMap] at cycles
  exact (effects.symm.append cycles.symm).trans (List.flatMap_append_perm _ _ _)

end Everything

/-- A report on a run without a failure speaks of every unit, and says of it what there is
to say, whatever the order in which the units were processed and however the parts of the
graph were interleaved. -/
theorem report_covers (program : Code.Program) {policy : Policy} {graph : Graph}
    (built : Graph.build (.ofProgram program) policy = .ok graph) (summaries : Summaries) :
    (∀ workers, (Schedule.run (.ofProgram program) graph summaries workers).Arises
      (.ofProgram program) graph summaries) ∧
    ∀ outcome : Outcome, outcome.Arises (.ofProgram program) graph summaries →
      outcome.IsUnfailed →
      ∀ reporter : Reporter, reporter.Unrestricted (.ofProgram program) →
        ∃ report : Method → List Diagnostic,
          (∀ method ∈ Registry.methods (.ofProgram program),
            Covers (.ofProgram program) outcome method (report method)) ∧
          (reporter.effects outcome.result ++ reporter.stuck outcome).Perm
            ((Registry.methods (.ofProgram program)).flatMap report) := by
  have named := Registry.named_ofProgram program
  refine ⟨Schedule.arises_run _ graph summaries, fun outcome arises unfailed reporter free => ?_⟩
  have concludes := arises.concludes named built unfailed
  obtain ⟨cycle, exact, stuck⟩ := exists_exact_stuck free concludes
  have effects : reporter.effects outcome.result =
      outcome.result.order.flatMap (reporter.unitEffects outcome.result) := filtered_eq free _
  refine ⟨reporter.unitReport outcome.result cycle.stuck, fun method member => ?_, ?_⟩
  · exact covers_unitReport free named concludes exact
      ((Registry.mem_methods_iff named method).1 member)
  · rw [effects, stuck]
    exact perm_unitReport named concludes exact

/-- A method that keeps what it is given, and one that calls itself. -/
def larder : Code.Program := ⟨[⟨0, "Jar", "", [⟨0, "Jar", ["next"]⟩],
  [{ pos := 1
     name := "fill"
     params := [⟨2, "item", "Jar", false⟩, ⟨3, "$1", "Jar", false⟩, ⟨4, "lid", "Jar", false⟩]
     result := ""
     isConstructor := false
     valueReceiver := false
     body := some ⟨5, [.assign 6 (some ⟨6, Code.this, "next"⟩)
       (.reference ⟨7, "", "item"⟩)]⟩ },
    .plain "loop" [.call 8 "" "loop" []]]⟩]⟩

/-- A reporter of everything about the larder. -/
def talkative : Reporter := ⟨.ofProgram larder, fun _ => false, ⟨31⟩, []⟩

/-- Side by side, the report on the larder speaks of both its methods. -/
theorem report_covers_larder :
    ∃ graph outcome report, Graph.build (.ofProgram larder) .lexicographic = .ok graph ∧
      outcome = Schedule.run (.ofProgram larder) graph ∅ 2 ∧ outcome.IsUnfailed ∧
      talkative.Unrestricted (.ofProgram larder) ∧
      (talkative.effects outcome.result ++ talkative.stuck outcome).map (·.message) =
        ["Receiver of Jar.fill is changed (ae:change)",
          "Parameter 'item' of Jar.fill is changed (ae:change)",
          "Parameter 'lid' of Jar.fill is not changed (ae:unchanged)",
          "Effects of Jar.loop are unknown, cyclic dependency on Jar.loop (ae:cycle)"] ∧
      (∀ method ∈ Registry.methods (.ofProgram larder),
        Covers (.ofProgram larder) outcome method (report method)) ∧
      (talkative.effects outcome.result ++ talkative.stuck outcome).Perm
        ((Registry.methods (.ofProgram larder)).flatMap report) := by
  have shown : ((Graph.build (.ofProgram larder) .lexicographic).toOption.map fun graph =>
      ((Schedule.run (.ofProgram larder) graph ∅ 2).error,
        (talkative.effects (Schedule.run (.ofProgram larder) graph ∅ 2).result ++
          talkative.stuck (Schedule.run (.ofProgram larder) graph ∅ 2)).map (·.message))) =
      some (some (.cycle ⟨[⟨⟨"Jar", "loop"⟩, [⟨"Jar", "loop"⟩]⟩]⟩),
        ["Receiver of Jar.fill is changed (ae:change)",
          "Parameter 'item' of Jar.fill is changed (ae:change)",
          "Parameter 'lid' of Jar.fill is not changed (ae:unchanged)",
          "Effects of Jar.loop are unknown, cyclic dependency on Jar.loop (ae:cycle)"]) := by
    decide +kernel
  have free : talkative.Unrestricted (.ofProgram larder) := ⟨rfl, fun _ => rfl, by decide +kernel⟩
  cases built : Graph.build (.ofProgram larder) .lexicographic with
  | error error =>
      rw [built] at shown
      cases shown
  | ok graph =>
      rw [built] at shown
      simp only [Except.toOption, Option.map_some, Option.some.injEq, Prod.mk.injEq] at shown
      have unfailed : (Schedule.run (.ofProgram larder) graph ∅ 2).IsUnfailed := .inr ⟨_, shown.1⟩
      obtain ⟨arises, covered⟩ := report_covers larder built ∅
      obtain ⟨report, covers, perm⟩ := covered _ (arises 2) unfailed talkative free
      exact ⟨graph, _, report, rfl, rfl, unfailed, free, shown.2, covers, perm⟩

end Report

end Custody
