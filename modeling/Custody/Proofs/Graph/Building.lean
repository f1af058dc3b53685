import Custody.Proofs.Graph.Consistency

/-!
# Building a graph

The graph of a program has the methods of its registry as units, and an edge for
every call site.  Whatever the policy, it is consistent with nothing done.
-/

namespace Custody

open Code

/-! ## The methods of a program -/

namespace Registry

variable {registry : Registry}

/-- Every method is registered under its own name. -/
def Named (registry : Registry) : Prop :=
  ∀ unit method, registry.method? unit = some method → method.unit = unit

/-- The methods of a class know the class and their own names. -/
theorem methods_ofDecl (decl : ClassDecl) (member : String) (method : Method)
    (found : (Class.ofDecl decl).methods.find? member = some method) :
    method.owner = decl.name ∧ method.member = member := by
  have kept : ∀ (decls : List MethodDecl) (methods : Table String Method),
      (∀ member method, methods.find? member = some method →
        method.owner = decl.name ∧ method.member = member) →
      ∀ member method, (decls.foldl (fun methods method =>
        if methods.contains method.member then methods
        else methods.insert method.member (Method.ofDecl decl.name method)) methods).find? member =
          some method → method.owner = decl.name ∧ method.member = member := by
    intro decls
    induction decls with
    | nil => exact fun _ holds => holds
    | cons first rest ih =>
        intro methods holds
        refine ih _ fun member method found => ?_
        dsimp only at found
        split at found
        next => exact holds member method found
        next =>
          rw [Table.find?_insert] at found
          split at found
          next here =>
            cases Std.LawfulEqCmp.eq_of_compare here
            cases found
            exact ⟨rfl, rfl⟩
          next => exact holds member method found
  exact kept decl.methods ∅ (fun _ _ found => by cases found) member method found

theorem named_ofProgram (program : Program) : (ofProgram program).Named := by
  have kept : ∀ (decls : List ClassDecl) (registry : Registry),
      (∀ name found, registry.classes.find? name = some found →
        ∀ member method, found.method? member = some method → method.unit = ⟨name, member⟩) →
      ∀ name found, (decls.foldl (fun registry decl =>
        (registry.register (Class.ofDecl decl)).2) registry).classes.find? name = some found →
        ∀ member method, found.method? member = some method → method.unit = ⟨name, member⟩ := by
    intro decls
    induction decls with
    | nil => exact fun _ holds => holds
    | cons decl rest ih =>
        intro registry holds
        refine ih _ fun name found known => ?_
        dsimp only [register] at known
        split at known
        next => exact holds name found known
        next =>
          rw [Table.find?_insert] at known
          split at known
          next here =>
            cases Std.LawfulEqCmp.eq_of_compare here
            cases known
            intro member method listed
            obtain ⟨owner, same⟩ := methods_ofDecl decl member method listed
            rw [Method.unit, owner, same]
            rfl
          next => exact holds name found known
  intro unit method found
  obtain ⟨owner, known, listed⟩ := Option.bind_eq_some_iff.1 found
  exact kept program.classes empty (fun _ _ found => by cases found) unit.owner owner known
    unit.member method listed

/-- The list of all methods is what can be looked up. -/
theorem mem_methods_iff (named : registry.Named) (method : Method) :
    method ∈ registry.methods ↔ registry.method? method.unit = some method := by
  have listed : method ∈ registry.methods ↔ ∃ unit, registry.method? unit = some method := by
    simp only [methods, Table.values, List.mem_flatMap, List.mem_map, Prod.exists,
      exists_eq_right, method?, Class.method?, Option.bind_eq_some_iff, Table.find?_eq_some_iff]
    constructor
    · rintro ⟨owner, ⟨name, known⟩, member, found⟩
      exact ⟨⟨name, member⟩, owner, known, found⟩
    · rintro ⟨unit, owner, known, found⟩
      exact ⟨owner, ⟨unit.owner, known⟩, unit.member, found⟩
  rw [listed]
  constructor
  · rintro ⟨unit, found⟩
    rw [named unit method found]
    exact found
  · intro found
    exact ⟨method.unit, found⟩

end Registry

namespace Graph

variable {registry : Registry} {graph next : Graph} {calls : UnitId → UnitId → Prop}
variable {phase : UnitId → Phase}

/-! ## Units -/

/-- The units of the graph are those of the methods, and nothing is known about them
yet. -/
structure Lists (methods : List Method) (graph : Graph) : Prop where
  nodes : ∀ unit node, graph.nodes.find? unit = some node →
    ∃ method ∈ methods, method.unit = unit ∧ node = .new (some method)
  contains : ∀ method ∈ methods, graph.nodes.contains method.unit = true
  notReady : ∀ unit, graph.notReady.contains unit = graph.nodes.contains unit
  ready : graph.ready = ∅
  processing : graph.processing = ∅

theorem Lists.addUnit {methods : List Method} (lists : graph.Lists methods) (method : Method) :
    (graph.addUnit method.unit (some method)).Lists (methods ++ [method]) := by
  unfold Graph.addUnit
  split
  next known =>
    refine ⟨fun unit node found => ?_, fun other member => ?_, lists.notReady, lists.ready,
      lists.processing⟩
    · obtain ⟨earlier, member, rest⟩ := lists.nodes unit node found
      exact ⟨earlier, List.mem_append_left _ member, rest⟩
    · rcases List.mem_append.1 member with earlier | last
      · exact lists.contains other earlier
      · rw [List.mem_singleton.1 last]
        exact known
  next fresh =>
    have found : ∀ unit, (graph.nodes.insert method.unit (.new (some method))).find? unit =
        if compare unit method.unit = .eq then some (.new (some method))
        else graph.nodes.find? unit := fun unit => Table.find?_insert
    refine ⟨fun unit node known => ?_, fun other member => ?_, fun unit => ?_, lists.ready,
      lists.processing⟩
    · rw [found] at known
      split at known
      next here =>
        cases Std.LawfulEqCmp.eq_of_compare here
        cases known
        exact ⟨method, by simp, rfl, rfl⟩
      next =>
        obtain ⟨earlier, member, rest⟩ := lists.nodes unit node known
        exact ⟨earlier, List.mem_append_left _ member, rest⟩
    · rw [Table.contains, found]
      rcases List.mem_append.1 member with earlier | last
      · split
        · rfl
        · exact lists.contains other earlier
      · rw [List.mem_singleton.1 last]
        simp
    · rw [Bool.eq_iff_iff, KeySet.contains_add, lists.notReady, Table.contains, Table.contains,
        found]
      split
      next here =>
        cases Std.LawfulEqCmp.eq_of_compare here
        simp
      next apart =>
        have different : unit ≠ method.unit := by
          rintro rfl
          simp at apart
        simp [different]

theorem lists_addUnits (policy : Policy) (methods : List Method) :
    (methods.foldl (fun graph method => graph.addUnit method.unit (some method))
      (empty policy)).Lists methods := by
  have kept : ∀ (rest : List Method) (graph : Graph) (past : List Method), graph.Lists past →
      (rest.foldl (fun graph method => graph.addUnit method.unit (some method)) graph).Lists
        (past ++ rest) := by
    intro rest
    induction rest with
    | nil =>
        intro graph past lists
        simpa using lists
    | cons method rest ih =>
        intro graph past lists
        have later := ih _ _ (lists.addUnit method)
        rw [List.append_assoc] at later
        exact later
  refine kept methods (empty policy) [] ⟨?_, ?_, fun _ => rfl, rfl, rfl⟩
  · intro unit node found
    cases found
  · intro method member
    cases member

/-! ## Edges -/

/-- Before any unit is processed, every unit waits for all units it calls. -/
def Linked (registry : Registry) (calls : UnitId → UnitId → Prop) (graph : Graph) : Prop :=
  graph.Describes registry calls calls fun _ => .notReady

theorem Lists.linked (lists : graph.Lists registry.methods) (named : registry.Named) :
    graph.Linked registry fun _ _ => False := by
  have known : ∀ unit, graph.nodes.contains unit = (registry.method? unit).isSome := by
    intro unit
    rw [Bool.eq_iff_iff, Option.isSome_iff_exists]
    constructor
    · intro present
      obtain ⟨node, found⟩ := Option.isSome_iff_exists.1 present
      obtain ⟨method, member, rfl, _⟩ := lists.nodes unit node found
      exact ⟨method, (Registry.mem_methods_iff named method).1 member⟩
    · rintro ⟨method, found⟩
      have same := named unit method found
      rw [← same] at found
      rw [← same]
      exact lists.contains method ((Registry.mem_methods_iff named method).2 found)
  refine ⟨fun unit => ?_, fun unit node found => ?_, False.elim, False.elim, fun unit => ?_,
    fun unit => ?_, fun unit => ?_⟩
  · cases found : graph.nodes.find? unit with
    | none =>
        have absent := known unit
        rw [Table.contains, found, Option.isSome_none, eq_comm, Option.isSome_eq_false_iff,
          Option.isNone_iff_eq_none] at absent
        rw [absent]
        rfl
    | some node =>
        obtain ⟨method, member, rfl, rfl⟩ := lists.nodes unit node found
        rw [(Registry.mem_methods_iff named method).1 member]
        rfl
  · obtain ⟨method, _, _, rfl⟩ := lists.nodes unit node found
    exact ⟨by simp [GraphNode.new, Table.contains], by simp [GraphNode.new, Table.contains],
      by simp [GraphNode.new, Table.contains], rfl⟩
  · simp [lists.ready, Table.contains]
  · rw [lists.notReady, known]
    simp
  · simp [lists.processing, Table.contains]

namespace Linked

theorem congr {others : UnitId → UnitId → Prop} (linked : graph.Linked registry calls)
    (same : ∀ unit other, calls unit other ↔ others unit other) :
    graph.Linked registry others := by
  have equal : calls = others := funext fun unit => funext fun other => propext (same unit other)
  exact equal ▸ linked

/-- Both ends of an edge learn about it. -/
theorem addEdge {caller callee : UnitId} (linked : graph.Linked registry calls)
    (present : (registry.method? caller).isSome = true)
    (added : Graph.addEdge caller callee graph = .ok () next) :
    next.Linked registry fun unit other =>
      calls unit other ∨ (unit = caller ∧ other = callee) := by
  unfold Graph.addEdge at added
  split at added
  next known =>
    cases added
    have target : (registry.method? callee).isSome = true := by
      rw [← linked.isSome_iff]
      exact known
    have nodes : ∀ unit, ((graph.nodes.modify caller (.addBefore callee)).modify callee
        (.addAfter caller)).find? unit = (graph.nodes.find? unit).map fun node =>
          let linked := if unit = caller then node.addBefore callee else node
          if unit = callee then linked.addAfter caller else linked := by
      intro unit
      simp only [Table.find?_modify, Std.LawfulEqCmp.compare_eq_iff_eq, eq_comm (b := unit)]
      cases graph.nodes.find? unit <;> grind
    refine linked.withNodes (fun unit => ?_) (fun unit node found => ?_) ?_ ?_
    · rw [GraphNode.method_modify (.addAfter caller) fun _ => rfl,
        GraphNode.method_modify (.addBefore callee) fun _ => rfl]
    · rw [nodes] at found
      obtain ⟨old, before, rfl⟩ := Option.map_eq_some_iff.1 found
      have fits := linked.fits unit old before
      refine ⟨fun other => ?_, fun other => ?_, fun other => ?_, ?_⟩
      · rw [← fits.before]
        simp only [GraphNode.addBefore, GraphNode.addAfter]
        split <;> split <;> grind [KeySet.contains_add]
      · rw [← fits.after]
        simp only [GraphNode.addBefore, GraphNode.addAfter]
        split <;> split <;> grind [KeySet.contains_add]
      · rw [← fits.waitFor]
        simp only [GraphNode.addBefore, GraphNode.addAfter]
        split <;> split <;> grind [KeySet.contains_add]
      · rw [← fits.phase]
        simp only [GraphNode.addBefore, GraphNode.addAfter]
        split <;> split <;> rfl
    · rintro unit other (earlier | ⟨rfl, rfl⟩)
      · exact linked.callers earlier
      · exact present
    · rintro unit other (earlier | ⟨rfl, rfl⟩)
      · exact linked.callees earlier
      · exact target
  next => cases added

/-- A call site adds the edge to the unit that it names, if it names one. -/
theorem linkSite {unit : UnitId} {method : Method} {site : Node}
    (linked : graph.Linked registry calls) (present : (registry.method? unit).isSome = true)
    (added : Graph.linkSite registry unit method site graph = .ok () next) :
    next.Linked registry fun caller other =>
      calls caller other ∨ (caller = unit ∧ site.callee registry method = .ok (some other)) := by
  unfold Graph.linkSite at added
  dsimp only at added
  split at added
  next => cases added
  next none =>
    cases added
    refine linked.congr fun caller other => ?_
    rw [none]
    simp
  next callee named =>
    split at added
    next after edge =>
      cases added
      refine (linked.addEdge present edge).congr fun caller other => ?_
      rw [named]
      simp [eq_comm]
    next => cases added

/-- What single steps add is added by all of them together. -/
theorem forM {α : Type} (items : List α) (step : α → Action EdgeError Unit)
    (adds : α → UnitId → UnitId → Prop)
    (each : ∀ item ∈ items, ∀ {graph next : Graph} {calls : UnitId → UnitId → Prop},
      graph.Linked registry calls → step item graph = .ok () next →
      next.Linked registry fun unit other => calls unit other ∨ adds item unit other)
    (linked : graph.Linked registry calls) (done : items.forM step graph = .ok () next) :
    next.Linked registry fun unit other =>
      calls unit other ∨ ∃ item ∈ items, adds item unit other := by
  induction items generalizing graph calls with
  | nil =>
      cases done
      exact linked.congr fun unit other => by simp
  | cons item rest ih =>
      obtain ⟨_, middle, first, later⟩ := bind_eq_ok done
      have last := ih (fun other member => each other (.tail _ member))
        (each item (.head _) linked first) later
      refine last.congr fun unit other => ?_
      simp only [List.mem_cons, exists_eq_or_imp, or_assoc]

/-- In the end, every unit waits for the units that its call sites name. -/
theorem link (linked : graph.Linked registry fun _ _ => False)
    (done : Graph.link registry graph = .ok () next) : next.Linked registry (Calls registry) := by
  have known : ∀ entry ∈ graph.nodes.entries, ∃ method,
      registry.method? entry.1 = some method ∧ entry.2.method = some method :=
    fun entry member => linked.method_of_find? (Table.find?_eq_some_iff.2 member)
  refine (linked.forM graph.nodes.entries _
    (fun entry unit other => unit = entry.1 ∧ ∃ method, entry.2.method = some method ∧
      ∃ site ∈ method.decl.nodes, site.callee registry method = .ok (some other))
    (fun entry member {graph next calls} linked added => ?_) done).congr fun unit other => ?_
  · obtain ⟨method, listed, same⟩ := known entry member
    have present : (registry.method? entry.1).isSome = true := by simp [listed]
    simp only [same] at added
    have sites := linked.forM method.decl.nodes _ _
      (fun _ _ {_ _ _} linked added => linked.linkSite present added) added
    refine sites.congr fun unit other => or_congr_right ?_
    constructor
    · rintro ⟨site, inside, rfl, named⟩
      exact ⟨rfl, method, same, site, inside, named⟩
    · rintro ⟨rfl, _, also, site, inside, named⟩
      cases same.symm.trans also
      exact ⟨site, inside, rfl, named⟩
  · rw [false_or]
    constructor
    · rintro ⟨entry, member, rfl, method, same, sites⟩
      obtain ⟨_, listed, also⟩ := known entry member
      cases same.symm.trans also
      exact ⟨method, listed, sites⟩
    · rintro ⟨method, listed, sites⟩
      obtain ⟨node, found, _⟩ := linked.exists_node (Option.isSome_iff_exists.2 ⟨method, listed⟩)
      obtain ⟨_, also, same⟩ := linked.method_of_find? found
      cases listed.symm.trans also
      exact ⟨(unit, node), Table.find?_eq_some_iff.1 found, rfl, method, same, sites⟩

end Linked

/-! ## The whole graph -/

/-- The units that call nothing want to become ready. -/
theorem mem_refresh_iff (linked : graph.Linked registry calls) (event : Event) :
    event ∈ graph.refresh ↔ event = ⟨event.unit, .notReady, .ready⟩ ∧
      (registry.method? event.unit).isSome = true ∧ ∀ other, ¬calls event.unit other := by
  have wakes : ∀ unit node, graph.nodes.find? unit = some node →
      (node.wakeUp? unit = some event ↔
        event = ⟨unit, .notReady, .ready⟩ ∧ ∀ other, ¬calls unit other) := by
    intro unit node found
    have fits := linked.fits unit node found
    have free : node.waitFor.isEmpty = true ↔ ∀ other, ¬calls unit other := by
      simp only [KeySet.isEmpty_iff, ← Bool.not_eq_true, fits.waitFor]
    rw [← free, GraphNode.wakeUp?, fits.phase]
    cases node.waitFor.isEmpty <;> simp [eq_comm]
  rw [refresh, List.mem_filterMap]
  constructor
  · rintro ⟨⟨unit, node⟩, member, wake⟩
    have found := Table.find?_eq_some_iff.2 member
    obtain ⟨rfl, free⟩ := (wakes unit node found).1 wake
    obtain ⟨method, listed, _⟩ := linked.method_of_find? found
    exact ⟨rfl, by simp [listed], free⟩
  · rintro ⟨shape, present, free⟩
    obtain ⟨node, found, _⟩ := linked.exists_node present
    exact ⟨(event.unit, node), Table.find?_eq_some_iff.1 found,
      (wakes event.unit node found).2 ⟨shape, free⟩⟩

theorem nodup_refresh (graph : Graph) : (graph.refresh.map (·.unit)).Nodup := by
  have named : ∀ {unit : UnitId} {node : GraphNode} {event : Event},
      node.wakeUp? unit = some event → event.unit = unit := by
    intro unit node event wake
    unfold GraphNode.wakeUp? at wake
    split at wake <;> cases wake
    rfl
  refine List.pairwise_map.2 (graph.nodes.ascending.filterMap _ fun left right less => ?_)
  intro event wake other also same
  rw [named wake, named also] at same
  rw [same] at less
  simp at less

/-- A graph that has been built is consistent, and no unit is done. -/
theorem consistent_build {policy : Policy} (named : registry.Named)
    (built : build registry policy = .ok graph) : graph.Consistent registry [] := by
  unfold build at built
  dsimp only at built
  split at built
  next => cases built
  next linked done =>
    have described := ((lists_addUnits policy registry.methods).linked named).link done
    obtain ⟨last, applied, final⟩ := described.applyAll linked.refresh (nodup_refresh linked)
      fun event member => by
        obtain ⟨shape, present, _⟩ := (mem_refresh_iff described event).1 member
        exact ⟨shape, present, rfl⟩
    rw [applied] at built
    cases built
    refine final.congr (fun unit other _ => by simp) fun unit present => ?_
    have listed : unit ∈ linked.refresh.map (·.unit) ↔ Settled registry [] unit := by
      rw [List.mem_map]
      constructor
      · rintro ⟨event, member, rfl⟩ other calls
        exact absurd calls (((mem_refresh_iff described event).1 member).2.2 other)
      · intro settled
        refine ⟨⟨unit, .notReady, .ready⟩, (mem_refresh_iff described _).2 ⟨rfl, present, ?_⟩, rfl⟩
        exact fun other calls => List.not_mem_nil (settled other calls)
    rw [phaseAfter, if_neg List.not_mem_nil]
    split
    next member => rw [if_pos (listed.1 member)]
    next absent => rw [if_neg fun settled => absent (listed.2 settled)]

end Graph

end Custody
