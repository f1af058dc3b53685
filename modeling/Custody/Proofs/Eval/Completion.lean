import Custody.Proofs.Eval.Performing

/-!
# Evaluations that succeed

At a place where a node mentions only variables that are declared there, fields that there are
and units that have been analyzed, every question has its answer.  So a unit whose body
resolves has a result, once the units that it calls have been analyzed.
-/

namespace Custody.Eval

open Code Heap

/-! ## What is asked for -/

/-- A unit is declared, and its summary answers. -/
def Context.Knows (context : Context) (unit : UnitId) : Prop :=
  ∃ callee, context.registry.method? unit = some callee ∧
    (context.summaries.of callee).Answers callee

/-- The registry and the summaries know what is mentioned. -/
def Context.resolving (context : Context) : Demands where
  reads := context.registry.Finds
  calls env qualifier member :=
    ∃ type, context.registry.Denotes env qualifier type ∧
      context.registry.qualifierType context.method qualifier = .ok type ∧
        context.Knows ⟨type, member⟩
  makes type maker names :=
    (maker ≠ "" → context.Knows ⟨type, constructorMember maker⟩) ∧
      ∀ name ∈ names, name.toList.head? ≠ some '$'

/-- The summaries know what is called once they answer for every unit that a node names. -/
theorem Context.resolves {context : Context} {env table : Environment} {node : Node}
    (throughout : Node.Throughout context.registry.resolving.Meets env node)
    (types : context.registry.Types context.method table) (within : env ⊆ table)
    (declares : node.preorder.flatMap Node.declared ⊆ table)
    (answers : ∀ site ∈ node.preorder, ∀ unit callee,
      site.callee context.registry context.method = .ok (some unit) →
      context.registry.method? unit = some callee → (context.summaries.of callee).Answers callee) :
    Node.Throughout context.resolving.Meets env node := by
  have knows : ∀ site ∈ node.preorder, ∀ unit,
      site.callee context.registry context.method = .ok (some unit) →
      (context.registry.method? unit).isSome = true → context.Knows unit := by
    intro site listed unit named declared
    obtain ⟨callee, found⟩ := Option.isSome_iff_exists.1 declared
    exact ⟨callee, found, answers site listed unit callee named found⟩
  refine (throughout.within within (List.Subset.refl _) declares).imp ?_
  rintro env site ⟨within, listed, meets⟩
  cases site with
  | call pos qualifier member args =>
      obtain ⟨type, denotes, declared⟩ := meets
      have resolved := denotes.qualifierType types within
      refine ⟨type, denotes, resolved, knows _ (listed (.head _)) _ ?_ declared⟩
      simp only [Node.callee, resolved]
  | new pos type maker args =>
      refine ⟨fun named => knows _ (listed (.head _)) _ ?_ (meets.1 named), meets.2⟩
      simp only [Node.callee, named, if_false]
  | reference target => exact meets
  | assign pos target value =>
      cases target with
      | some target => exact meets
      | none => trivial
  | _ => trivial

theorem Step.method_eq_pure {context : Context} {unit : UnitId} {callee : Method}
    (found : context.registry.method? unit = some callee) :
    Step.method context unit = pure callee := by
  unfold Registry.method? at found
  obtain ⟨owner, known, declared⟩ := Option.bind_eq_some_iff.1 found
  have lookup : context.registry.lookup unit.owner = .ok owner := by
    simp only [Registry.lookup, known]
  rw [Step.method, Step.ofRegistry_bind lookup, declared]

/-- A summary that answers leaves nothing open. -/
theorem tells_of_answers {context : Context} {admits : Cause → Prop} {callee : Method}
    (answers : (context.summaries.of callee).Answers callee) : context.Tells admits callee where
  analyzed := fun unknown => absurd unknown answers.receiver
  listed := by
    intro param member error refused
    have listed := (answers.params param.name).2 (List.mem_map_of_mem member)
    obtain ⟨effect, found⟩ := Option.isSome_iff_exists.1 listed
    simp only [Summary.param, found] at refused
    cases refused
  known := by
    intro param member said
    unfold Summary.param at said
    split at said
    next effect found =>
      cases said
      exact absurd rfl (answers.effects param.name .unknown found)
    next => cases said

theorem Context.Knows.provides {context : Context} {admits : Cause → Prop} {unit : UnitId}
    (knows : context.Knows unit) : context.Provides admits unit := by
  obtain ⟨callee, found, answers⟩ := knows
  intro before
  rw [Step.method_eq_pure found]
  exact .pure fun _ holds => ⟨holds, tells_of_answers answers⟩

/-! ## Paths -/

section Paths

variable {admits : Cause → Prop} {place : Place} {loose hand : List Ref} {registry : Registry}
variable {summaries : Summaries} {method : Method} {type name : String}

namespace Place.Ready

/-- A variable of the place has the type that it is declared with. -/
theorem first (distinct : (place.table.map (·.1)).Nodup) (declared : (name, type) ∈ place.env) :
    Yields admits (place.Ready loose hand)
      (fun found frame => place.ReadyOn loose hand found.1 frame ∧ found.2 = type)
      (Step.first (.counting registry summaries method) place.scope name) := by
  refine .of_ok fun frame ready => ?_
  obtain ⟨binding, found⟩ := ready.exists_lookup? declared
  have label := ready.labels (ready.listed.mem_labels_of_lookup? found)
  have same := List.inj_on_of_nodup_map distinct label (place.within declared) rfl
  exact ⟨_, _, Step.first_of_bound _ found, ready.bound found, congrArg Prod.snd same⟩

variable (unreserved : registry.Unreserved) (distinct : (place.table.map (·.1)).Nodup)

include unreserved distinct

theorem path {qualifier : String} (some : qualifier ≠ "")
    (denotes : registry.Denotes place.env qualifier type) :
    Yields admits (place.Ready loose hand)
      (fun found frame => place.ReadyOn loose hand found.1 frame ∧ found.2 = type)
      (Step.path (.counting registry summaries method) place.scope qualifier) := by
  obtain ⟨start, declared, typed⟩ := denotes
  rw [qualifierFirst, if_neg some] at declared
  refine (first distinct declared).bind fun found => .assuming ?_
  rintro rfl
  have excused : ∀ error, registry.fieldChainType found.2 (Path.parse qualifier).rest =
      .error error → admits (.registry error) := by
    intro error refused
    cases typed.symm.trans refused
  refine (Place.ReadyOn.follow unreserved _ excused found.1).weaken (fun _ ready => ready) ?_
  intro last frame ready
  exact ⟨ready.1, Except.ok.inj (ready.2.symm.trans typed)⟩

theorem reference {target : Reference} (finds : registry.Finds place.env target) :
    Yields admits (place.Ready loose hand) (fun found => place.Ready loose (found.toList ++ hand))
      (Step.reference (.counting registry summaries method) place.scope target) := by
  unfold Registry.Finds at finds
  unfold Step.reference
  split
  next bare =>
    rw [if_pos bare] at finds
    obtain ⟨type, declared⟩ := finds
    exact (first distinct declared).bind fun found => .pure fun _ ready => ready.1.inHand
  next qualified =>
    rw [if_neg qualified] at finds
    obtain ⟨owner, type, denotes, typed⟩ := finds
    refine (path unreserved distinct qualified denotes).bind fun found => .assuming ?_
    rintro rfl
    have excused : ∀ error, registry.fieldType found.2 target.member = .error error →
        admits (.registry error) := by
      intro error refused
      cases typed.symm.trans refused
    refine (Place.ReadyOn.field unreserved excused found.1).bind fun member => ?_
    exact .pure fun _ ready => ready.1.inHand

theorem callReceiver {qualifier : String} (denotes : registry.Denotes place.env qualifier type) :
    Yields admits (place.Ready loose hand) (fun found => place.Ready loose (found.toList ++ hand))
      (Step.callReceiver (.counting registry summaries method) place.scope qualifier) := by
  unfold Step.callReceiver
  split
  next bare =>
    obtain ⟨start, declared, _⟩ := denotes
    rw [qualifierFirst, if_pos bare] at declared
    exact (first distinct declared).bind fun found => .pure fun _ ready => ready.1.inHand
  next qualified =>
    refine (path unreserved distinct qualified denotes).bind fun found => ?_
    exact .pure fun _ ready => ready.1.inHand

/-- The target of an assignment gets an object in hand. -/
theorem assign (pos : Int) {target : Reference} (finds : registry.Finds place.env target)
    (value : Option Ref) :
    Yields admits (place.Ready [] (value.toList ++ [])) (fun _ => place.Ready [] [])
      (Step.assign (.counting registry summaries method) place.scope pos target value) := by
  unfold Registry.Finds at finds
  unfold Step.assign
  by_cases bare : target.qualifier = ""
  · rw [if_pos bare] at finds
    obtain ⟨type, declared⟩ := finds
    rw [if_neg (not_not.2 bare)]
    split
    · exact (Place.Ready.skip pos _).weaken (fun _ ready => ready.right) fun _ _ ready => ready
    · refine .of_ok fun frame ready => ?_
      obtain ⟨binding, found⟩ := ready.exists_lookup? declared
      obtain ⟨next, done, after⟩ := rebind value ready found
      refine ⟨(), next, ?_, after⟩
      rw [bind_of_ok (rfl : (get : Step Frame) frame = .ok frame frame), found]
      exact done
  · rw [if_neg bare] at finds
    obtain ⟨owner, type, denotes, typed⟩ := finds
    rw [if_pos bare]
    refine (path unreserved distinct bare denotes).bind fun found => .assuming ?_
    rintro rfl
    refine Place.ReadyOn.store unreserved pos (fun error refused => ?_) found.1 value
    cases typed.symm.trans refused

end Place.Ready

/-- What a node mentions is known at the places where its variables are declared. -/
theorem backing_of_meets {table env : Environment} {node : Node} (unreserved : registry.Unreserved)
    (distinct : (table.map (·.1)).Nodup)
    (meets : (Context.counting registry summaries method).resolving.Meets env node) :
    (Context.counting registry summaries method).Backing admits table env node := by
  rintro place rfl rfl
  cases node with
  | reference target =>
      exact fun _ _ => Place.Ready.reference unreserved distinct meets
  | new pos type maker args =>
      exact ⟨fun named => (meets.1 named).provides, fun arg member =>
        meets.2 arg.1 (List.mem_map_of_mem member)⟩
  | call pos qualifier member args =>
      obtain ⟨type, denotes, resolved, knows⟩ := meets
      refine ⟨fun error refused => ?_, fun other typed => ?_, fun _ _ =>
        Place.Ready.callReceiver unreserved distinct denotes⟩
      · cases resolved.symm.trans refused
      · cases resolved.symm.trans typed
        exact knows.provides
  | assign pos target value =>
      cases target with
      | none => trivial
      | some target => exact Place.Ready.assign unreserved distinct pos meets
  | _ => trivial

end Paths

/-! ## Units -/

section Units

variable {registry : Registry} {summaries : Summaries} {method : Method}

/-- A method whose body mentions only what is known. -/
structure Resolved (registry : Registry) (method : Method) : Prop where
  known : (registry.lookup method.owner).isOk = true
  distinct : ((tableOf method).map (·.1)).Nodup
  types : registry.Types method (tableOf method)
  statements : ∀ block ∈ method.decl.body, ∀ stmt ∈ block.stmts, stmt.IsStatement
  resolves : ∀ block ∈ method.decl.body,
    Node.Throughout registry.resolving.Meets (entryNames method) block.node

/-- The body of a unit comes to its end in a frame that is ready for it. -/
theorem exists_body (unreserved : registry.Unreserved) (resolved : Resolved registry method)
    (answers : ∀ node ∈ method.decl.nodes, ∀ unit callee,
      node.callee registry method = .ok (some unit) →
      registry.method? unit = some callee → (summaries.of callee).Answers callee)
    {entry : Entry} {frame : Frame} (ready : (entry.place method).Ready [] [] frame) :
    ∃ inner next, body (.counting registry summaries method) entry.root frame = .ok inner next := by
  have statements : ∀ block ∈ method.decl.body, ∀ stmt ∈ block.stmts, stmt.IsCommand :=
    fun block declared stmt listed => (resolved.statements block declared stmt listed).isCommand
  have backs : ∀ block ∈ method.decl.body, Node.Throughout
      ((Context.counting registry summaries method).Backing (fun _ => False) (tableOf method))
      (entryNames method) block.node := by
    intro block declared
    have nodes : method.decl.nodes = block.node.preorder := by
      simp only [MethodDecl.nodes, Option.mem_def.1 declared]
    rw [nodes] at answers
    refine Node.Throughout.imp ?_ (backing_of_meets unreserved resolved.distinct)
    exact Context.resolves (resolved.resolves block declared) resolved.types
      (entry.place method).within (declared_subset_tableOf declared) answers
  obtain ⟨inner, next, done, _⟩ := (yields_body entry statements backs).exists_ok ready
  exact ⟨inner, next, done⟩

/-- The evaluation of a unit has a result if its body mentions only what is known, and
the units that it calls have been analyzed. -/
theorem exists_run (unreserved : registry.Unreserved) (resolved : Resolved registry method)
    (answers : ∀ node ∈ method.decl.nodes, ∀ unit callee,
      node.callee registry method = .ok (some unit) →
      registry.method? unit = some callee → (summaries.of callee).Answers callee) (lastId : Nat) :
    ∃ result, (run (.counting registry summaries method) lastId).result = .ok result := by
  obtain ⟨entry, memory, entered, _⟩ := exists_enter method lastId
  obtain ⟨inner, frame, finished⟩ :=
    exists_body unreserved resolved answers (ready_enter entered)
  have upkeep := meets_body registry summaries entered
  rw [finished] at upkeep
  obtain ⟨last, left, _⟩ := exists_leave upkeep
  obtain ⟨owner, known⟩ : ∃ owner, registry.lookup method.owner = .ok owner := by
    cases found : registry.lookup method.owner with
    | ok owner => exact ⟨owner, rfl⟩
    | error error =>
        have known := resolved.known
        rw [found] at known
        cases known
  exact ⟨frame.result, run_of_ok known entered finished left⟩

end Units

end Custody.Eval
