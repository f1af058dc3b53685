import Custody.Proofs.Code.Resolution
import Custody.Proofs.Graph.Building
import Mathlib.Logic.Relation

/-!
# What the graph of a program says

The graph of a program can be built exactly if every call site in it names a method.
Then the units and the edges of the graph are the methods and the call sites, no more and
no less.  If it cannot be built, the error is that of the first call site that names no
method, in the order of the units and in preorder within a body.

`Code.Node.Names` says which unit a call site names without reference to the way in which
the graph is built, and `Code.Node.Within` finds call sites at any depth of a body without
reference to the order in which they are visited.
-/

namespace Custody

open Code

/-! ## Call sites -/

namespace Code

namespace Node

variable {env later : Environment} {node child site : Node}

/-- A node stands at some depth of a tree. -/
def Within : Node → Node → Prop :=
  Relation.ReflTransGen fun parent child => ∃ env later, Inside env parent later child

theorem Within.mem_preorder (within : node.Within site) (present : site.isPresent = true) :
    site ∈ node.preorder := by
  induction within using Relation.ReflTransGen.head_induction_on with
  | refl =>
      cases site with
      | absent | vacant => cases present
      | _ => simp [preorder]
  | head inside _ ih =>
      obtain ⟨_, _, inside⟩ := inside
      exact inside.preorder_subset ih

/-- What is visited stands in the tree.  Targets of assignments are visited as well, and
these are references. -/
theorem within_of_mem_preorder (member : site ∈ node.preorder)
    (other : ∀ target, site ≠ .reference target) : node.Within site := by
  induction size : sizeOf node using Nat.strongRecOn generalizing node with
  | ind bound ih =>
      rcases mem_preorder_cases [] member with rfl | ⟨_, target, _, _, rfl⟩ | ⟨_, child, inside, below⟩
      · exact .refl
      · exact (other target rfl).elim
      · exact .head ⟨_, _, inside⟩ (ih _ (size ▸ inside.sizeOf_lt) below rfl)

/-- The unit that a call site names.  A call names a method of the class that its qualifier
leads to, and a construction names the constructor if it has one. -/
inductive Names (registry : Registry) (method : Method) : Node → UnitId → Prop where
  | call {pos : Int} {qualifier type member : String} {args : List Node}
      (resolves : registry.qualifierType method qualifier = .ok type) :
      Names registry method (.call pos qualifier member args) ⟨type, member⟩
  | new {pos : Int} {type maker : String} {args : List (String × Node)} (made : maker ≠ "") :
      Names registry method (.new pos type maker args) ⟨type, constructorMember maker⟩

/-- A call site stands for an edge: the qualifier of a call has a type, and the unit that
is named is a method. -/
structure Linkable (registry : Registry) (method : Method) (site : Node) : Prop where
  resolves : ∀ pos qualifier member args, site = .call pos qualifier member args →
    ∃ type, registry.qualifierType method qualifier = .ok type
  registered : ∀ unit, site.Names registry method unit → (registry.method? unit).isSome = true

/-- Why a call site stands for no edge. -/
inductive Unlinkable (registry : Registry) (method : Method) : Node → EdgeCause → Prop where
  | unresolved {pos : Int} {qualifier member : String} {args : List Node}
      {error : Registry.Error} (refused : registry.qualifierType method qualifier = .error error) :
      Unlinkable registry method (.call pos qualifier member args) (.registry error)
  | unregistered {site : Node} {unit : UnitId} (names : site.Names registry method unit)
      (unknown : registry.method? unit = none) :
      Unlinkable registry method site (.graph (.notUnit unit))

variable {registry : Registry} {method : Method} {unit : UnitId}

theorem callee_eq_some_iff :
    site.callee registry method = .ok (some unit) ↔ site.Names registry method unit := by
  constructor
  · intro named
    unfold callee at named
    split at named
    · split at named <;> cases named
      next resolves => exact .call resolves
    · split at named <;> cases named
      next made => exact .new made
    · cases named
  · intro names
    cases names with
    | call resolves => simp only [callee, resolves]
    | new made => simp only [callee, if_neg made]

theorem linkable_of_callee_eq_none (named : site.callee registry method = .ok none) :
    site.Linkable registry method := by
  refine ⟨?_, fun unit names => ?_⟩
  · rintro pos qualifier member args rfl
    dsimp only [callee] at named
    split at named <;> cases named
  · cases named.symm.trans (callee_eq_some_iff.2 names)

theorem linkable_of_callee_eq_some (named : site.callee registry method = .ok (some unit))
    (known : (registry.method? unit).isSome = true) : site.Linkable registry method := by
  refine ⟨?_, fun other names => ?_⟩
  · rintro pos qualifier member args rfl
    cases callee_eq_some_iff.1 named with
    | call resolves => exact ⟨_, resolves⟩
  · cases named.symm.trans (callee_eq_some_iff.2 names)
    exact known

theorem unlinkable_of_callee_eq_error {error : Registry.Error}
    (refused : site.callee registry method = .error error) :
    site.Unlinkable registry method (.registry error) := by
  unfold callee at refused
  split at refused
  · split at refused <;> cases refused
    next unresolved => exact .unresolved unresolved
  · cases refused
  · cases refused

theorem Unlinkable.not_linkable {cause : EdgeCause}
    (unlinkable : site.Unlinkable registry method cause) : ¬site.Linkable registry method := by
  intro linkable
  cases unlinkable with
  | unresolved refused =>
      obtain ⟨type, resolves⟩ := linkable.resolves _ _ _ _ rfl
      cases refused.symm.trans resolves
  | unregistered names unknown =>
      have known := linkable.registered _ names
      rw [unknown] at known
      cases known

end Node

namespace MethodDecl

variable {registry : Registry} {method : Method} {decl : MethodDecl} {site : Node}

/-- A node stands at some depth of the body of a method. -/
def Contains (decl : MethodDecl) (site : Node) : Prop :=
  ∃ block, decl.body = some block ∧ block.node.Within site

theorem Contains.mem_nodes (contains : decl.Contains site) (present : site.isPresent = true) :
    site ∈ decl.nodes := by
  obtain ⟨block, body, within⟩ := contains
  simp only [nodes, body]
  exact within.mem_preorder present

theorem contains_of_mem_nodes (member : site ∈ decl.nodes)
    (other : ∀ target, site ≠ .reference target) : decl.Contains site := by
  cases body : decl.body with
  | none =>
      simp only [nodes, body] at member
      cases member
  | some block =>
      simp only [nodes, body] at member
      exact ⟨block, body, Node.within_of_mem_preorder member other⟩

theorem contains_and_names_iff {unit : UnitId} :
    decl.Contains site ∧ site.Names registry method unit ↔
      site ∈ decl.nodes ∧ site.Names registry method unit := by
  refine and_congr_left fun names => ⟨fun contains => contains.mem_nodes ?_, fun member =>
    contains_of_mem_nodes member ?_⟩
  · cases names <;> rfl
  · rintro target rfl
    cases names

/-- The nodes that are visited are enough to see that all call sites stand for edges. -/
theorem linkable_iff :
    (∀ site, decl.Contains site → site.Linkable registry method) ↔
      ∀ site ∈ decl.nodes, site.Linkable registry method := by
  constructor
  · intro every site member
    by_cases other : ∀ target, site ≠ .reference target
    · exact every site (contains_of_mem_nodes member other)
    · obtain ⟨target, rfl⟩ := not_forall_not.1 other
      exact Node.linkable_of_callee_eq_none rfl
  · intro every site contains
    by_cases present : site.isPresent = true
    · exact every site (contains.mem_nodes present)
    · cases site with
      | absent | vacant => exact Node.linkable_of_callee_eq_none rfl
      | _ => exact (present rfl).elim

end MethodDecl

end Code

/-! ## The first call site that is no edge -/

/-- The call sites of a unit stand for edges. -/
def Registry.Links (registry : Registry) (unit : UnitId) : Prop :=
  ∀ method, registry.method? unit = some method →
    ∀ site, method.decl.Contains site → site.Linkable registry method

theorem Registry.links_iff {registry : Registry} {unit : UnitId} {method : Method}
    (registered : registry.method? unit = some method) :
    registry.Links unit ↔ ∀ site ∈ method.decl.nodes, site.Linkable registry method := by
  rw [← MethodDecl.linkable_iff]
  refine ⟨fun links => links method registered, fun every other also => ?_⟩
  cases registered.symm.trans also
  exact every

/-- A call site of which the registry knows all that it mentions stands for an edge. -/
theorem Registry.Resolves.linkable {registry : Registry} {method : Method} {site : Node}
    (resolves : registry.Resolves method site) : site.Linkable registry method := by
  refine ⟨?_, fun unit names => ?_⟩
  · rintro pos qualifier member args rfl
    obtain ⟨type, resolved, _⟩ := resolves
    exact ⟨type, resolved⟩
  · cases names with
    | call resolved =>
        obtain ⟨type, also, declared⟩ := resolves
        cases resolved.symm.trans also
        exact declared
    | new made => exact resolves made

/-- An error is about the first node of a method, in preorder, that stands for no edge. -/
def EdgeError.Earliest (registry : Registry) (method : Method) (error : EdgeError) : Prop :=
  ∃ past site rest, method.decl.nodes = past ++ site :: rest ∧
    (∀ earlier ∈ past, Node.Linkable registry method earlier) ∧
    site.Unlinkable registry method error.cause ∧
    error.pos = site.pos ∧ error.call = site.callText

/-- An error is about the first call site that stands for no edge, by units and then in
preorder. -/
structure EdgeError.First (registry : Registry) (error : EdgeError) : Prop where
  within : ∃ method, registry.method? error.unit = some method ∧ error.Earliest registry method
  least : ∀ unit, compare unit error.unit = .lt → registry.Links unit

theorem EdgeError.First.not_links {registry : Registry} {error : EdgeError}
    (first : error.First registry) : ¬registry.Links error.unit := by
  intro links
  obtain ⟨method, registered, past, site, rest, split, _, unlinkable, _⟩ := first.within
  have listed : site ∈ method.decl.nodes := by simp [split]
  exact unlinkable.not_linkable ((Registry.links_iff registered).1 links site listed)

namespace Graph

variable {registry : Registry} {graph : Graph} {calls : UnitId → UnitId → Prop}

/-- Some call site of one unit names another. -/
def Targets (registry : Registry) (unit other : UnitId) : Prop :=
  ∃ method, registry.method? unit = some method ∧
    ∃ site, method.decl.Contains site ∧ site.Names registry method other

theorem targets_iff_calls (unit other : UnitId) :
    Targets registry unit other ↔ Calls registry unit other := by
  refine exists_congr fun method => and_congr_right fun _ => exists_congr fun site => ?_
  rw [MethodDecl.contains_and_names_iff, Node.callee_eq_some_iff]

namespace Linked

/-- Each call site either adds its edge, or it is told why it stands for none. -/
theorem linkSite_cases (linked : graph.Linked registry calls) {unit : UnitId} {method : Method}
    (present : (registry.method? unit).isSome = true) (site : Node) :
    (site.Linkable registry method ∧ ∃ next others,
        Graph.linkSite registry unit method site graph = .ok () next ∧
        next.Linked registry others) ∨
      ∃ error last, (site.Unlinkable registry method error.cause ∧ error.unit = unit ∧
          error.pos = site.pos ∧ error.call = site.callText) ∧
        Graph.linkSite registry unit method site graph = .error error last := by
  cases named : site.callee registry method with
  | error error =>
      refine .inr ⟨⟨unit, site.pos, site.callText, .registry error⟩, graph,
        ⟨Node.unlinkable_of_callee_eq_error named, rfl, rfl, rfl⟩, ?_⟩
      simp only [Graph.linkSite, named]
  | ok callee =>
      cases callee with
      | none =>
          refine .inl ⟨Node.linkable_of_callee_eq_none named, graph, calls, ?_, linked⟩
          simp only [Graph.linkSite, named]
      | some other =>
          cases known : registry.method? other with
          | none =>
              have absent : graph.nodes.contains other = false := by
                rw [Table.contains, linked.isSome_iff, known]
                rfl
              refine .inr ⟨⟨unit, site.pos, site.callText, .graph (.notUnit other)⟩, graph,
                ⟨.unregistered (Node.callee_eq_some_iff.1 named) known, rfl, rfl, rfl⟩, ?_⟩
              simp [Graph.linkSite, named, Graph.addEdge, absent]
          | some target =>
              have known : (registry.method? other).isSome = true := by rw [known]; rfl
              have contained : graph.nodes.contains other = true :=
                (linked.isSome_iff other).trans known
              obtain ⟨next, done⟩ :
                  ∃ next, Graph.linkSite registry unit method site graph = .ok () next := by
                simp only [Graph.linkSite, named, Graph.addEdge, contained, ↓reduceIte]
                exact ⟨_, rfl⟩
              exact .inl ⟨Node.linkable_of_callee_eq_some named known, next, _, done,
                linked.linkSite present done⟩

/-- Steps are taken one after the other up to the first that fails. -/
theorem forM_cases {α : Type} {good : α → Prop} {bad : α → EdgeError → Prop} (items : List α)
    (step : α → Action EdgeError Unit)
    (each : ∀ item ∈ items, ∀ {graph : Graph} {calls : UnitId → UnitId → Prop},
      graph.Linked registry calls →
      (good item ∧ ∃ next others, step item graph = .ok () next ∧ next.Linked registry others) ∨
        ∃ error last, bad item error ∧ step item graph = .error error last)
    (linked : graph.Linked registry calls) :
    ((∀ item ∈ items, good item) ∧
        ∃ next others, items.forM step graph = .ok () next ∧ next.Linked registry others) ∨
      ∃ error last, (∃ past item rest, items = past ++ item :: rest ∧
          (∀ earlier ∈ past, good earlier) ∧ bad item error) ∧
        items.forM step graph = .error error last := by
  induction items generalizing graph calls with
  | nil => exact .inl ⟨nofun, graph, calls, rfl, linked⟩
  | cons item rest ih =>
      obtain ⟨fine, middle, _, first, linked⟩ | ⟨error, last, wrong, failed⟩ :=
        each item (.head _) linked
      · obtain ⟨others, next, _, later, linked⟩ |
            ⟨error, last, ⟨past, found, after, rfl, before, wrong⟩, later⟩ :=
          ih (fun other member => each other (.tail _ member)) linked
        · refine .inl ⟨?_, next, _, (bind_of_ok first).trans later, linked⟩
          exact List.forall_mem_cons.2 ⟨fine, others⟩
        · refine .inr ⟨error, last, ⟨item :: past, found, after, rfl, ?_, wrong⟩,
            (bind_of_ok first).trans later⟩
          exact List.forall_mem_cons.2 ⟨fine, before⟩
      · exact .inr ⟨error, last, ⟨[], item, rest, rfl, nofun, wrong⟩, bind_of_error failed⟩

/-- The call sites of a unit are looked at up to the first that stands for no edge. -/
theorem linkUnit_cases (linked : graph.Linked registry calls) {unit : UnitId}
    (present : (registry.method? unit).isSome = true) (method : Method) :
    ((∀ site ∈ method.decl.nodes, site.Linkable registry method) ∧ ∃ next others,
        Graph.linkUnit registry unit method graph = .ok () next ∧
        next.Linked registry others) ∨
      ∃ error last, (error.unit = unit ∧ error.Earliest registry method) ∧
        Graph.linkUnit registry unit method graph = .error error last := by
  obtain done | ⟨error, last, ⟨past, site, rest, split, before, wrong, same, pos, call⟩, failed⟩ :=
    linked.forM_cases method.decl.nodes (Graph.linkSite registry unit method)
      fun site _ {_ _} linked => linked.linkSite_cases present site
  · exact .inl done
  · exact .inr ⟨error, last, ⟨same, ⟨past, site, rest, split, before, wrong, pos, call⟩⟩, failed⟩

/-- The units are looked at up to the first with a call site that stands for no edge. -/
theorem link_cases (linked : graph.Linked registry calls) :
    ((∀ unit, registry.Links unit) ∧ ∃ next, Graph.link registry graph = .ok () next) ∨
      ∃ error last, error.First registry ∧ Graph.link registry graph = .error error last := by
  have looked : ((∀ entry ∈ graph.nodes.entries, registry.Links entry.1) ∧
      ∃ next others, Graph.link registry graph = .ok () next ∧ next.Linked registry others) ∨
      ∃ error last, (∃ past entry rest, graph.nodes.entries = past ++ entry :: rest ∧
        (∀ earlier ∈ past, registry.Links earlier.1) ∧
        ∃ method, registry.method? entry.1 = some method ∧ error.unit = entry.1 ∧
          error.Earliest registry method) ∧ Graph.link registry graph = .error error last := by
    have known : ∀ entry ∈ graph.nodes.entries, ∃ method,
        registry.method? entry.1 = some method ∧ entry.2.method = some method :=
      fun entry member => linked.method_of_find? (Table.find?_eq_some_iff.2 member)
    refine linked.forM_cases graph.nodes.entries _ fun entry member {graph calls} linked => ?_
    obtain ⟨unit, node⟩ := entry
    obtain ⟨method, registered, same⟩ := known _ member
    have present : (registry.method? unit).isSome = true := Option.isSome_iff_exists.2 ⟨_, registered⟩
    have same : node.method = some method := same
    simp only [same]
    obtain ⟨every, done⟩ | ⟨error, last, wrong, failed⟩ :=
      linked.linkUnit_cases present method
    · exact .inl ⟨(Registry.links_iff registered).2 every, done⟩
    · exact .inr ⟨error, last, ⟨method, registered, wrong⟩, failed⟩
  have listed : ∀ unit, ¬registry.Links unit → ∃ node, (unit, node) ∈ graph.nodes.entries := by
    intro unit unlinked
    obtain ⟨method, unlinked⟩ := not_forall.1 unlinked
    obtain ⟨registered, _⟩ := not_forall.1 unlinked
    obtain ⟨node, found, _⟩ := linked.exists_node (Option.isSome_iff_exists.2 ⟨method, registered⟩)
    exact ⟨node, Table.find?_eq_some_iff.1 found⟩
  obtain ⟨every, next, _, done, _⟩ | ⟨error, last,
    ⟨past, entry, rest, split, before, method, registered, same, earliest⟩, failed⟩ := looked
  · refine .inl ⟨fun unit => Classical.byContradiction fun unlinked => ?_, next, done⟩
    obtain ⟨node, member⟩ := listed unit unlinked
    exact unlinked (every _ member)
  · refine .inr ⟨error, last, ⟨⟨method, same ▸ registered, earliest⟩, fun unit less => ?_⟩, failed⟩
    refine Classical.byContradiction fun unlinked => ?_
    obtain ⟨node, member⟩ := listed unit unlinked
    -- The entries ascend, so a lesser unit stands before the one that fails.
    have ascending := graph.nodes.ascending
    rw [split] at member ascending
    rcases List.mem_append.1 member with earlier | later
    · exact unlinked (before _ earlier)
    · rw [same] at less
      rcases List.mem_cons.1 later with here | after
      · rw [← here] at less
        simp at less
      · have greater :=
          (List.pairwise_cons.1 (List.pairwise_append.1 ascending).2.1).1 _ after
        cases (Std.OrientedCmp.gt_of_lt greater).symm.trans less

end Linked

/-! ## The whole graph -/

/-- A graph that is new says what the call sites of the methods say, and nothing else: the
units wait for the units that they name, and those that name none are ready. -/
structure Exact (registry : Registry) (graph : Graph) : Prop where
  units : ∀ unit, (graph.nodes.find? unit).map (·.method) = (registry.method? unit).map some
  before : ∀ unit node, graph.nodes.find? unit = some node →
    ∀ other, node.before.contains other = true ↔ Targets registry unit other
  waitFor : ∀ unit node, graph.nodes.find? unit = some node →
    ∀ other, node.waitFor.contains other = true ↔ Targets registry unit other
  after : ∀ unit node, graph.nodes.find? unit = some node →
    ∀ other, node.after.contains other = true ↔ Targets registry other unit
  phase : ∀ unit node, graph.nodes.find? unit = some node →
    node.phase = if node.before.isEmpty then .ready else .notReady
  ready : ∀ unit, graph.ready.contains unit = true ↔
    ∃ node, graph.nodes.find? unit = some node ∧ node.before.isEmpty = true
  notReady : ∀ unit, graph.notReady.contains unit = true ↔
    ∃ node, graph.nodes.find? unit = some node ∧ node.before.isEmpty = false
  processing : ∀ unit, graph.processing.contains unit = false

/-- Nothing is done yet in a graph that is new. -/
theorem Consistent.exact (consistent : graph.Consistent registry []) : graph.Exact registry := by
  have before : ∀ unit node, graph.nodes.find? unit = some node →
      ∀ other, node.before.contains other = true ↔ Targets registry unit other :=
    fun unit node found other =>
      ((consistent.fits unit node found).before other).trans (targets_iff_calls unit other).symm
  have idle : ∀ unit node, graph.nodes.find? unit = some node →
      (node.before.isEmpty = true ↔ Settled registry [] unit) := by
    intro unit node found
    simp only [KeySet.isEmpty_iff, ← Bool.not_eq_true, before unit node found, targets_iff_calls,
      Settled, List.not_mem_nil]
  have present : ∀ unit, (registry.method? unit).isSome = true ↔
      ∃ node, graph.nodes.find? unit = some node := by
    intro unit
    rw [← consistent.isSome_iff, Option.isSome_iff_exists]
  refine ⟨consistent.units, before, fun unit node found other => ?_, fun unit node found other => ?_,
    fun unit node found => ?_, fun unit => ?_, fun unit => ?_, ?_⟩
  · rw [(consistent.fits unit node found).waitFor, targets_iff_calls]
    simp
  · rw [(consistent.fits unit node found).after, targets_iff_calls]
  · rw [(consistent.fits unit node found).phase, phaseAfter, if_neg List.not_mem_nil]
    by_cases settled : Settled registry [] unit
    · rw [if_pos settled, if_pos ((idle unit node found).2 settled)]
    · rw [if_neg settled, if_neg (settled ∘ (idle unit node found).1)]
  · rw [consistent.ready_iff, present]
    constructor
    · rintro ⟨⟨node, found⟩, _, settled⟩
      exact ⟨node, found, (idle unit node found).2 settled⟩
    · rintro ⟨node, found, empty⟩
      exact ⟨⟨node, found⟩, List.not_mem_nil, (idle unit node found).1 empty⟩
  · rw [consistent.notReady_iff, present]
    constructor
    · rintro ⟨⟨node, found⟩, _, waits⟩
      exact ⟨node, found, Bool.eq_false_iff.2 fun empty => waits ((idle unit node found).1 empty)⟩
    · rintro ⟨node, found, waits⟩
      refine ⟨⟨node, found⟩, List.not_mem_nil, fun settled => ?_⟩
      rw [(idle unit node found).2 settled] at waits
      cases waits
  · exact KeySet.isEmpty_iff.1 consistent.isEmpty_processing

/-- A graph is built, or the first call site is named that stands for no edge. -/
theorem build_cases (named : registry.Named) (policy : Policy) :
    ((∀ unit, registry.Links unit) ∧ ∃ graph, build registry policy = .ok graph) ∨
      ∃ error, error.First registry ∧ build registry policy = .error (.edge error) := by
  have units := (lists_addUnits policy registry.methods).linked named
  obtain ⟨every, linked, done⟩ | ⟨error, last, first, failed⟩ := units.link_cases
  · have described := units.link done
    obtain ⟨last, applied, _⟩ := described.applyAll linked.refresh (nodup_refresh linked)
      fun event member => by
        obtain ⟨shape, present, _⟩ := (mem_refresh_iff described event).1 member
        exact ⟨shape, present, rfl⟩
    exact .inl ⟨every, last, by simp only [build, done, applied]⟩
  · exact .inr ⟨error, first, by simp only [build, failed]⟩

/-- The graph of a program is built exactly if every call site names a method.  It says what
the call sites say, or the first of them is named that stands for no edge. -/
theorem build_exact (program : Program) (policy : Policy) :
    ((∃ graph, build (.ofProgram program) policy = .ok graph) ↔
        ∀ unit method, Registry.method? (.ofProgram program) unit = some method →
          ∀ site, method.decl.Contains site → site.Linkable (.ofProgram program) method) ∧
      (∀ graph, build (.ofProgram program) policy = .ok graph →
        graph.Exact (.ofProgram program)) ∧
      ∀ failure, build (.ofProgram program) policy = .error failure →
        ∃ error, failure = .edge error ∧ error.First (.ofProgram program) := by
  have named := Registry.named_ofProgram program
  refine ⟨?_, fun graph built => (consistent_build named built).exact, fun failure failed => ?_⟩
  · obtain ⟨every, built⟩ | ⟨error, first, failed⟩ := build_cases named policy
    · exact iff_of_true built every
    · refine iff_of_false ?_ fun every => first.not_links (every error.unit)
      rintro ⟨graph, built⟩
      cases built.symm.trans failed
  · obtain ⟨_, graph, built⟩ | ⟨error, first, refused⟩ := build_cases named policy
    · cases built.symm.trans failed
    · cases refused.symm.trans failed
      exact ⟨error, rfl, first⟩

end Graph

end Custody
