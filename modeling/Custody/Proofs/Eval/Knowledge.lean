import Custody.Proofs.Data.Occurrences
import Custody.Proofs.Eval.Invariant

/-!
# Knowing what is called

What an evaluation finds out about a unit answers for every parameter and for the
receiver.  The evaluation asks the summaries about the units that it calls; where these
answer in the same way, it fails for other causes only.
-/

namespace Custody

/-- A summary says what happens to every parameter of a method and to its receiver, and
nothing else. -/
structure Summary.Answers (method : Method) (summary : Summary) : Prop where
  receiver : summary.receiver ≠ .unknown
  params : ∀ name, (summary.params.find? name).isSome = true ↔
    name ∈ method.params.map (·.name)
  effects : ∀ name effect, summary.params.find? name = some effect → effect ≠ .unknown

namespace Eval

open Code

/-- Is it that too little is known of a unit that is called? -/
def Cause.isUnanswered : Cause → Bool
  | summary _ | notAnalyzed _ | unknownEffect _ _ => true
  | _ => false

/-- The parameters of a frame have the given names. -/
def Frame.Names (names : List String) (frame : Frame) : Prop :=
  frame.params.map (·.name) = names

section Steps

variable {α : Type} {names : List String}

/-- Operations on the memory neither ask a summary nor touch what is tracked. -/
theorem names_onMemory (action : Memory.Action α) :
    Ensures (·.isUnanswered = false) (Frame.Names names) (fun _ => Frame.Names names)
      (Step.onMemory action) := by
  intro frame same
  unfold Step.onMemory
  cases action frame.memory with
  | ok result memory => exact same
  | error error memory =>
      intro cause named
      cases named
      rfl

theorem names_onHeap (action : Heap.Action α) :
    Ensures (·.isUnanswered = false) (Frame.Names names) (fun _ => Frame.Names names)
      (Step.onHeap action) := names_onMemory _

theorem Frame.Remarked.keeps {frame other : Frame} (remarked : frame.Remarked other)
    (same : frame.Names names) : other.Names names := remarked.names.trans same

theorem names_materialize (context : Context) (owner : Ref) (type name : String) :
    Ensures (·.isUnanswered = false) (Frame.Names names) (fun _ => Frame.Names names)
      (Step.materialize context owner type name) := by
  intro frame same
  rw [Step.materialize_eq]
  have stored : Ensures (·.isUnanswered = false) (Frame.Names names) (fun _ => Frame.Names names)
      (do
        Step.onHeap (context.rules.setField (some owner) name (some frame.heap.objects.length))
        return frame.heap.objects.length) :=
    (names_onHeap _).bind fun _ => .pure fun _ same => same
  exact stored _ same

theorem names_read (context : Context) (owner : Ref) (type name : String) :
    Ensures (·.isUnanswered = false) (Frame.Names names) (fun _ => Frame.Names names)
      (Step.read context owner type name) := by
  intro frame same
  cases found : frame.heap.field? owner name with
  | some occupant =>
      rw [Step.read_of_field found]
      exact same
  | none =>
      cases settled : frame.isSettled owner name with
      | true =>
          rw [Step.read_of_settled found settled]
          exact same
      | false =>
          rw [Step.read_of_unsettled found settled]
          have mapped : Ensures (·.isUnanswered = false) (Frame.Names names)
              (fun _ => Frame.Names names) (some <$> Step.materialize context owner type name) :=
            (names_materialize context owner type name).map fun _ _ same => same
          exact mapped frame same

end Steps

/-- The parameters keep their names, and no failure comes from what is not known of a
unit that is called. -/
def answered (context : Context) (names : List String) : Invariant context where
  Admits := (·.isUnanswered = false)
  Holds := fun _ _ => Frame.Names names
  Readable := fun _ _ => True
  Apart := fun _ _ => True
  registry := fun _ => rfl
  notFound := fun _ => rfl
  noMethod := fun _ => rfl
  forget := fun same => same
  apart_forget := fun _ => trivial
  apart := fun _ _ => trivial
  remark := fun remarked same => remarked.keeps same
  binding := fun _ _ _ _ => trivial
  allocate := fun _ _ _ => (names_onHeap _).weaken (fun _ same => same) fun _ _ same => ⟨same, trivial⟩
  read := fun _ _ owner type name =>
    (names_read context owner type name).weaken (fun _ same => same.1) fun _ _ same =>
      ⟨same, fun _ _ => trivial⟩
  overwrite := by
    intro _ _ pos owner _ name _ value _ _ frame same
    rw [Step.overwrite_eq]
    refine names_onHeap _ _ (Frame.Remarked.keeps ?_ same.1)
    exact ((Frame.Remarked.taint frame pos _).trans (.taint _ pos value)).trans (.mark _ owner name)
  construct := by
    intro _ _ pos owner name value _ _ frame same
    rw [Step.construct_eq]
    exact names_onHeap _ _ ((Frame.Remarked.taint frame pos _).keeps same)
  capture := by
    intro _ _ pos receiver callee param argument _ frame same
    rw [Step.capture_eq]
    refine names_onHeap _ _ ?_
    exact ((Frame.Remarked.taint frame pos _).trans (.taint _ pos receiver)).keeps same
  openChild := fun _ _ _ => names_onMemory _
  close := fun _ _ _ => names_onMemory _
  declare := fun _ _ _ _ _ _ _ _ => names_onMemory _
  rebind := fun _ _ _ _ _ _ _ => (names_onMemory _).start fun _ same => same.1
  sweep := fun _ _ => names_onHeap _

/-- A summary that answers gives no cause for a failure. -/
theorem answers_of_summary {context : Context} {names : List String} {callee : Method}
    (known : (context.summaries.of callee).Answers callee) :
    (answered context names).Answers callee where
  receiver := fun unknown => (known.receiver unknown).elim
  missing := by
    intro param member error said
    have listed := (known.params param.name).2 (List.mem_map.2 ⟨param, member, rfl⟩)
    obtain ⟨effect, found⟩ := Option.isSome_iff_exists.1 listed
    rw [Summary.param, found] at said
    cases said
  unknown := by
    intro param member said
    unfold Summary.param at said
    split at said
    next effect found =>
      cases said
      exact (known.effects param.name _ found rfl).elim
    next => cases said

/-! ## Units -/

theorem Tracked.effect_ne_unknown (tracked : Tracked) : tracked.effect ≠ .unknown := by
  unfold effect
  split
  · simp
  · split <;> simp

theorem names_bindParams {rules : Heap.Discipline} {root : ScopeId} {params : List Param}
    {memory next : Memory} {tracked : List Tracked}
    (bound : bindParams rules root params memory = .ok tracked next) :
    tracked.map (·.name) = params.map (·.name) := by
  induction params generalizing memory tracked with
  | nil =>
      cases bound
      rfl
  | cons param rest ih =>
      obtain ⟨object, _, _, bound⟩ := bind_eq_ok bound
      obtain ⟨_, _, _, bound⟩ := bind_eq_ok bound
      obtain ⟨_, _, _, bound⟩ := bind_eq_ok bound
      obtain ⟨others, _, later, bound⟩ := bind_eq_ok bound
      cases bound
      exact congrArg (param.name :: ·) (ih later)

theorem names_enter {rules : Heap.Discipline} {method : Method} {memory next : Memory}
    {entry : Entry} (entered : enter rules method memory = .ok entry next) :
    (entry.frame next).Names (method.params.map (·.name)) := by
  obtain ⟨_, _, _, entered⟩ := bind_eq_ok entered
  obtain ⟨_, _, _, entered⟩ := bind_eq_ok entered
  obtain ⟨_, _, _, entered⟩ := bind_eq_ok entered
  obtain ⟨_, _, _, entered⟩ := bind_eq_ok entered
  obtain ⟨_, _, _, entered⟩ := bind_eq_ok entered
  obtain ⟨params, _, bound, entered⟩ := bind_eq_ok entered
  cases entered
  exact names_bindParams bound

/-- What a frame tells about its unit answers for all parameters. -/
theorem Frame.answers_result {frame : Frame} {method : Method}
    (same : frame.Names (method.params.map (·.name))) :
    frame.result.summary.Answers method := by
  refine ⟨Tracked.effect_ne_unknown _, fun name => ?_, fun name effect found => ?_⟩
  · rw [← same]
    refine Table.isSome_find?_ofList.trans ?_
    simp [Function.comp_def]
  · obtain ⟨tracked, _, entry⟩ := List.mem_map.1 (Table.mem_of_find?_ofList found)
    cases entry
    exact Tracked.effect_ne_unknown tracked

/-- What an evaluation finds out answers for all parameters, whatever it has been told
about the units that it calls. -/
theorem answers_of_run {context : Context} {lastId : Nat} {found : Result}
    (done : (run context lastId).result = .ok found) : found.summary.Answers context.method := by
  obtain ⟨_, _, entry, memory, inner, frame, _, entered, finished, _, rfl⟩ := run_eq_ok done
  let anyCause := (answered context (context.method.params.map (·.name))).permit (fun _ => True)
    fun _ _ => trivial
  have ends := anyCause.body entry.root
    (fun _ _ _ _ _ _ => ⟨fun _ => trivial, fun _ _ _ _ => trivial, fun _ _ _ => trivial⟩)
    (entry.frame memory) (names_enter entered)
  rw [finished] at ends
  exact Frame.answers_result ends

/-! ## Evaluations that know what they call -/

section Known

variable {context : Context} {lastId : Nat}
variable (known : ∀ node ∈ context.method.decl.nodes, ∀ unit callee,
  node.callee context.registry context.method = .ok (some unit) →
  context.registry.method? unit = some callee → (context.summaries.of callee).Answers callee)

include known

theorem ensures_body (root : ScopeId) :
    Ensures (·.isUnanswered = false) (Frame.Names (context.method.params.map (·.name)))
      (fun _ => Frame.Names (context.method.params.map (·.name))) (body context root) :=
  (answered context _).body root fun node member unit callee names found =>
    answers_of_summary (known node member unit callee names found)

/-- The evaluation never fails for what is not known of a unit that it calls. -/
theorem admitted_of_run {failure : Failure} (failed : (run context lastId).result = .error failure) :
    failure.Admitted (·.isUnanswered = false) := by
  cases run_eq_error failed with
  | @body entry memory _ _ entered broken =>
      have ends := ensures_body known entry.root _ (names_enter entered)
      rw [broken] at ends
      exact ends
  | _ =>
      intro cause named
      cases named
      rfl

end Known

end Eval

end Custody
