import Custody.Proofs.Eval.Performing

/-!
# Evaluations that fail

Values are handed on between expressions while nobody holds them, and meanwhile arguments are
captured, fields are made up and statements are swept up after.  Still no object is released as
long as it is in hand, so no evaluation of a well shaped body uses an object after its release
or releases it twice.  It fails only where a class, a field or the target of a call cannot be
resolved.
-/

namespace Custody

open Code

/-- A body has statements in blocks only and expressions elsewhere, and no argument of a new
object has a name that is made up. -/
structure Code.MethodDecl.Shaped (decl : MethodDecl) : Prop where
  statements : ∀ block ∈ decl.body, ∀ stmt ∈ block.stmts, stmt.IsCommand
  arguments : ∀ node ∈ decl.nodes, ∀ name ∈ node.argumentNames, name.toList.head? ≠ some '$'

/-- The summaries have an entry for every parameter of every unit.  A summary is made with these
entries, and setting the effect on a parameter takes none away. -/
def Registry.TabulatedBy (registry : Registry) (summaries : Summaries) : Prop :=
  ∀ unit callee, registry.method? unit = some callee → ∀ param ∈ callee.params,
    ((summaries.of callee).params.find? param.name).isSome = true

/-- There are entries for all parameters before anything has been analyzed. -/
theorem Registry.tabulatedBy_empty (registry : Registry) : registry.TabulatedBy ∅ := by
  intro unit callee _ param member
  refine Table.isSome_find?_ofList.2 ?_
  rw [List.map_map]
  exact List.mem_map_of_mem member

namespace Eval

/-- A class or a field is not known, or the target of a call is not, or not well enough. -/
def Cause.isUnresolved : Cause → Bool
  | registry _ | noMethod _ | notAnalyzed _ | unknownEffect _ _ => true
  | summary _ | memory _ | notFound _ | leave _ => false

/-- Something is unresolved, or a summary has no entry for a parameter. -/
def Cause.Lacks (registry : Registry) (summaries : Summaries) (cause : Cause) : Prop :=
  cause.isUnresolved = true ∨
    ∃ unit callee param error, registry.method? unit = some callee ∧ param ∈ callee.params ∧
      (summaries.of callee).param callee.unit param.name = .error error ∧ cause = .summary error

variable {registry : Registry} {summaries : Summaries} {method : Method} {place : Place}
variable {loose hand : List Ref} {name : String}

/-! ## Paths -/

section Paths

variable {admits : Cause → Prop} (unresolved : ∀ error, admits (.registry error))
variable (unreserved : registry.Unreserved) (owned : (this, method.owner) ∈ place.env)

include unresolved unreserved owned

namespace Place.Ready

/-- A name that is bound nowhere is a field of the receiver. -/
theorem firstOrField :
    Yields admits (place.Ready loose hand) (fun found => place.ReadyOn loose hand found.1)
      (Step.first (.counting registry summaries method) place.scope name) := by
  intro frame ready
  cases found : frame.memory.lookup? place.scope name with
  | some binding =>
      rw [Step.first_of_bound _ found]
      exact ready.bound found
  | none =>
      obtain ⟨receiver, here⟩ := ready.exists_lookup? owned
      rw [Step.first_of_unbound _ found here]
      exact (Place.ReadyOn.field unreserved (fun error _ => unresolved error) _).weaken
        (fun _ ready => ready) (fun _ _ ready => ready.1) frame (ready.bound here)

theorem anyPath (qualifier : String) :
    Yields admits (place.Ready loose hand) (fun found => place.ReadyOn loose hand found.1)
      (Step.path (.counting registry summaries method) place.scope qualifier) := by
  refine (firstOrField unresolved unreserved owned).bind fun found => ?_
  exact (Place.ReadyOn.follow unreserved _ (fun error _ => unresolved error) found.1).weaken
    (fun _ ready => ready) fun _ _ ready => ready.1

theorem anyReference (target : Reference) :
    Yields admits (place.Ready loose hand) (fun found => place.Ready loose (found.toList ++ hand))
      (Step.reference (.counting registry summaries method) place.scope target) := by
  unfold Step.reference
  split
  · exact (firstOrField unresolved unreserved owned).bind fun found =>
      .pure fun _ ready => ready.inHand
  · refine (anyPath unresolved unreserved owned target.qualifier).bind fun found => ?_
    refine (Place.ReadyOn.field unreserved (fun error _ => unresolved error) found.1).bind
      fun member => ?_
    exact .pure fun _ ready => ready.1.inHand

theorem anyReceiver (qualifier : String) :
    Yields admits (place.Ready loose hand) (fun found => place.Ready loose (found.toList ++ hand))
      (Step.callReceiver (.counting registry summaries method) place.scope qualifier) := by
  unfold Step.callReceiver
  split
  · exact (firstOrField unresolved unreserved owned).bind fun found =>
      .pure fun _ ready => ready.inHand
  · exact (anyPath unresolved unreserved owned qualifier).bind fun found =>
      .pure fun _ ready => ready.inHand

theorem anyAssign (pos : Int) (target : Reference) (value : Option Ref) :
    Yields admits (place.Ready [] (value.toList ++ [])) (fun _ => place.Ready [] [])
      (Step.assign (.counting registry summaries method) place.scope pos target value) := by
  have excused : ∀ owner name error, registry.fieldType owner name = .error error →
      admits (.registry error) := fun _ _ error _ => unresolved error
  unfold Step.assign
  split
  · exact (anyPath unresolved unreserved owned target.qualifier).bind fun found =>
      Place.ReadyOn.store unreserved pos (excused _ _) found.1 value
  · split
    · exact (Place.Ready.skip pos _).weaken (fun _ ready => ready.right) fun _ _ ready => ready
    · intro frame ready
      rw [bind_of_ok (rfl : (get : Step Frame) frame = .ok frame frame)]
      cases found : frame.memory.lookup? place.scope target.member with
      | some binding =>
          obtain ⟨next, done, after⟩ := rebind value ready found
          have done : Step.onMemory (Memory.rebind
              (Context.counting registry summaries method).rules binding value) frame =
              .ok () next := done
          dsimp only
          rw [done]
          exact after
      | none =>
          obtain ⟨receiver, here⟩ := ready.exists_lookup? owned
          dsimp only
          rw [bind_of_ok (Step.receiver_of_bound here)]
          exact Place.ReadyOn.store unreserved pos (excused _ _) _ value frame (ready.bound here)

end Place.Ready

end Paths

/-! ## Nodes -/

/-- A unit that is not found is unresolved. -/
theorem provides_lacks (unit : UnitId) :
    (Context.counting registry summaries method).Provides (Cause.Lacks registry summaries)
      unit := by
  intro before
  refine (Yields.ofRegistry fun error _ => .inl rfl).bind fun owner => .assuming fun known => ?_
  have same := Registry.method?_of_lookup known
  cases found : owner.method? unit.member with
  | none => exact .fail (.inl rfl)
  | some callee =>
      have found : registry.method? unit = some callee := same.trans found
      refine .pure fun _ holds => ⟨holds, fun _ => .inl rfl, ?_, fun _ _ _ => .inl rfl⟩
      intro param member error refused
      exact .inr ⟨unit, callee, param, error, found, member, refused, rfl⟩

/-- Where the receiver is bound, every node is backed. -/
theorem backing_lacks {table env : Environment} {node : Node} (unreserved : registry.Unreserved)
    (owned : (this, method.owner) ∈ env)
    (named : ∀ name ∈ node.argumentNames, name.toList.head? ≠ some '$') :
    (Context.counting registry summaries method).Backing (Cause.Lacks registry summaries) table env
      node := by
  have unresolved : ∀ error, Cause.Lacks registry summaries (.registry error) :=
    fun error => .inl rfl
  rintro place rfl rfl
  cases node with
  | reference target =>
      exact fun _ _ => Place.Ready.anyReference unresolved unreserved owned target
  | new pos type maker args =>
      exact ⟨fun _ => provides_lacks _, fun arg member =>
        named arg.1 (List.mem_map_of_mem member)⟩
  | call pos qualifier member args =>
      exact ⟨fun error _ => unresolved error, fun _ _ => provides_lacks _, fun _ _ =>
        Place.Ready.anyReceiver unresolved unreserved owned qualifier⟩
  | assign pos target value =>
      cases target with
      | none => trivial
      | some target => exact Place.Ready.anyAssign unresolved unreserved owned pos target
  | _ => trivial

/-! ## Units -/

/-- A well shaped body comes to its end, or something that it mentions is missing. -/
theorem yields_shaped (summaries : Summaries) (unreserved : registry.Unreserved)
    (shaped : method.decl.Shaped) (entry : Entry) :
    Yields (Cause.Lacks registry summaries) ((entry.place method).Ready [] [])
      (fun inner => ((entry.place method).inside inner).Ready [] [])
      (body (.counting registry summaries method) entry.root) := by
  refine yields_body entry shaped.statements fun block declared => ?_
  have nodes : method.decl.nodes = block.node.preorder := by
    simp only [MethodDecl.nodes, Option.mem_def.1 declared]
  have throughout := (throughout_receiver method block.node).within
    (entry.place method).within (List.Subset.refl _) (declared_subset_tableOf declared)
  refine throughout.imp ?_
  rintro env node ⟨_, listed, owned⟩
  refine backing_lacks unreserved owned fun name member => ?_
  have inside : node ∈ method.decl.nodes := by
    rw [nodes]
    exact listed (Node.mem_preorder_of_argumentNames member)
  exact shaped.arguments node inside name member

/-- The evaluation of a unit with a well shaped body never fails for an object that was
released.  It fails only where a class, a field or the target of a call is not resolved. -/
theorem run_fails_unresolved (registry : Registry) (summaries : Summaries) (method : Method)
    (lastId : Nat)
    (plain : ∀ owner ∈ registry.classes.values, ∀ name ∈ owner.fields.keys,
      name.toList.head? ≠ some '$')
    (shaped : method.decl.Shaped) {failure : Failure}
    (failed : (run (.counting registry summaries method) lastId).result = .error failure) :
    ∃ cause, failure.cause? = some cause ∧ (∀ error, cause ≠ .memory error) ∧
      (∀ errors, cause ≠ .leave errors) ∧
      (registry.TabulatedBy summaries → cause.isUnresolved = true) := by
  have lacks : ∃ cause, failure.cause? = some cause ∧ cause.Lacks registry summaries := by
    cases run_eq_error failed with
    | unknown error => exact ⟨_, rfl, .inl rfl⟩
    | entry refused =>
        obtain ⟨_, _, entered, _⟩ := exists_enter method lastId
        cases refused.symm.trans entered
    | @body entry memory _ frame entered broken =>
        have ends := yields_shaped summaries (unreserved_of_names plain) shaped entry _
          (ready_enter entered)
        rw [broken] at ends
        exact ends
    | leave entered finished refused =>
        have upkeep := meets_body registry summaries entered
        rw [finished] at upkeep
        obtain ⟨_, left, _⟩ := exists_leave upkeep
        cases left.symm.trans refused
  obtain ⟨cause, named, lacks⟩ := lacks
  refine ⟨cause, named, ?_, ?_, fun tabulated => ?_⟩
  · rintro error rfl
    rcases lacks with unresolved | ⟨_, _, _, _, _, _, _, same⟩
    · cases unresolved
    · cases same
  · rintro errors rfl
    rcases lacks with unresolved | ⟨_, _, _, _, _, _, _, same⟩
    · cases unresolved
    · cases same
  · rcases lacks with unresolved | ⟨unit, callee, param, error, found, member, refused, rfl⟩
    · exact unresolved
    · have entered := tabulated unit callee found param member
      obtain ⟨effect, listed⟩ := Option.isSome_iff_exists.1 entered
      simp only [Summary.param, listed] at refused
      cases refused

namespace Nesting

/-- A new object within another one, and a field of a parameter. -/
def declaration : Node :=
  .localVar 1 "Cell"
    [("own", .new 1 "Cell" "" [("next", .new 1 "Cell" "" [("", .literal 1 "1" false)])]),
      ("other", .reference ⟨1, "first", "next"⟩)]

/-- The inner object gives way to another one. -/
def replacement : Node :=
  .block 2 [.assign 2 (some ⟨2, "own", "next"⟩) (.reference ⟨2, "first.next", "next"⟩)]

/-- The method calls itself, and has not been analyzed by then. -/
def result : Node :=
  .ret 3 [.reference ⟨3, "", "own"⟩, .call 3 "" "nest" [.reference ⟨3, "", "other"⟩]]

def nest : MethodDecl where
  pos := 0
  name := "nest"
  params := [⟨0, "first", "Cell", false⟩]
  result := "Cell"
  isConstructor := false
  valueReceiver := false
  body := some ⟨0, [declaration, replacement, result]⟩

def cells : Registry := .ofProgram ⟨[⟨0, "Cell", "", [⟨0, "Cell", ["next"]⟩], [nest]⟩]⟩

theorem shaped_nest : nest.Shaped := by
  refine ⟨fun block declared => ?_, by decide⟩
  cases declared
  have reference : ∀ target, Node.IsExpression (.reference target) := .reference
  have inner : Node.IsExpression (.new 1 "Cell" "" [("", .literal 1 "1" false)]) :=
    .new (by simpa using Node.IsExpression.literal 1 "1" false)
  have outer : Node.IsExpression
      (.new 1 "Cell" "" [("next", .new 1 "Cell" "" [("", .literal 1 "1" false)])]) :=
    .new (by simpa using inner)
  have call : Node.IsExpression (.call 3 "" "nest" [.reference ⟨3, "", "other"⟩]) :=
    .call (by simpa using reference _)
  have first : declaration.IsCommand := .localVar (by simpa using ⟨outer, reference _⟩)
  have second : replacement.IsCommand :=
    .block (by simpa using Node.IsCommand.assign (reference _))
  have third : result.IsCommand := .ret (by simpa using ⟨reference _, call⟩)
  simpa using ⟨first, second, third⟩

end Nesting

/-- After objects have been made, read and replaced, a unit fails that has not been analyzed when
it is called. -/
theorem run_fails_unresolved_nest :
    (run (.counting Nesting.cells ∅ (.ofDecl "Cell" Nesting.nest)) 0).result =
        .error (.located 3 .call (.notAnalyzed ⟨"Cell", "nest"⟩)) ∧
      ∃ cause, (Failure.located 3 .call (.notAnalyzed ⟨"Cell", "nest"⟩)).cause? = some cause ∧
        (∀ error, cause ≠ .memory error) ∧ (∀ errors, cause ≠ .leave errors) ∧
        cause.isUnresolved = true := by
  have failed : (run (.counting Nesting.cells ∅ (.ofDecl "Cell" Nesting.nest)) 0).result =
      .error (.located 3 .call (.notAnalyzed ⟨"Cell", "nest"⟩)) := by decide +kernel
  obtain ⟨cause, named, memory, leave, unresolved⟩ :=
    run_fails_unresolved Nesting.cells ∅ _ 0 (by decide) Nesting.shaped_nest failed
  exact ⟨failed, cause, named, memory, leave, unresolved (Registry.tabulatedBy_empty _)⟩

end Eval

end Custody
