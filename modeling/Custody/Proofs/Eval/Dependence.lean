import Custody.Proofs.Eval.Invariant
import Custody.Proofs.Eval.Simulation
import Custody.Proofs.Graph.Exactness

/-!
# What an evaluation depends on

An evaluation asks the summaries about the units that the nodes of its body call, and about no
others.  The graph of a program has each of these before the unit that is evaluated.  So what
the summaries say about other units, the unit itself among them, makes no difference to the
outcome: not to the result, not to the failure, and not to what is noted on the way.
-/

namespace Custody.Eval

open Code

/-- The same unit with other summaries. -/
abbrev Context.told (context : Context) (summaries : Summaries) : Context :=
  { context with summaries }

namespace Step

variable {α : Type} {context : Context}

/-- What is done with a method matters for the method that is found only. -/
theorem method_bind_congr {unit : UnitId} {next other : Method → Step α}
    (same : ∀ callee, context.registry.method? unit = some callee → next callee = other callee) :
    method context unit >>= next = method context unit >>= other := by
  funext frame
  cases found : method context unit frame with
  | error failure last => rw [bind_of_error found, bind_of_error found]
  | ok callee last =>
      have known : context.registry.method? unit = some callee := by
        obtain ⟨owner, _, looked, found⟩ := bind_eq_ok found
        rw [Registry.method?_of_lookup (ofRegistry_eq_ok looked).1]
        cases listed : owner.method? unit.member with
        | none => simp only [listed] at found; cases found
        | some listed => simp only [listed] at found; cases found; rfl
      rw [bind_of_ok found, bind_of_ok found, same callee known]

/-- What is done with an answer of the registry matters for that answer only. -/
theorem ofRegistry_bind_congr {β : Type} {answer : Except Registry.Error β}
    {next other : β → Step α} (same : ∀ result, answer = .ok result → next result = other result) :
    ofRegistry answer >>= next = ofRegistry answer >>= other := by
  cases answer with
  | ok result => exact same result rfl
  | error error => rfl

end Step

/-! ## Paths ask nobody -/

section Paths

variable {context : Context} {summaries : Summaries} {scope : ScopeId}

theorem follow_told (names : List String) (place : Option Ref × String) :
    Step.follow (context.told summaries) place names = Step.follow context place names := by
  induction names generalizing place with
  | nil => rfl
  | cons name rest ih =>
      obtain ⟨object, type⟩ := place
      exact bind_congr ih

theorem path_told (qualifier : String) :
    Step.path (context.told summaries) scope qualifier = Step.path context scope qualifier :=
  bind_congr (follow_told _)

theorem reference_told (target : Reference) :
    Step.reference (context.told summaries) scope target = Step.reference context scope target := by
  unfold Step.reference
  rw [path_told]
  rfl

theorem callReceiver_told (qualifier : String) :
    Step.callReceiver (context.told summaries) scope qualifier =
      Step.callReceiver context scope qualifier := by
  unfold Step.callReceiver
  rw [path_told]
  rfl

theorem assign_told (pos : Int) (target : Reference) (value : Option Ref) :
    Step.assign (context.told summaries) scope pos target value =
      Step.assign context scope pos target value := by
  unfold Step.assign
  rw [path_told]
  rfl

end Paths

/-! ## Calls ask about their callee -/

section Calls

variable {context : Context} {summaries : Summaries} {callee : Method}
variable (same : summaries.of callee = context.summaries.of callee)

include same

theorem requireAnalyzed_told :
    Step.requireAnalyzed (context.told summaries) callee = Step.requireAnalyzed context callee := by
  unfold Step.requireAnalyzed
  rw [same]

theorem applyArguments_told (pos : Int) (receiver : Option Ref) (values : List (Option Ref))
    (index : Nat) (result : Option Ref) :
    Step.applyArguments (context.told summaries) pos callee receiver index values result =
      Step.applyArguments context pos callee receiver index values result := by
  induction values generalizing index result with
  | nil => rfl
  | cons value rest ih =>
      unfold Step.applyArguments
      simp only [same, ih]
      rfl

theorem applyEffects_told (pos : Int) (receiver : Option Ref) (values : List (Option Ref)) :
    Step.applyEffects (context.told summaries) pos callee receiver values =
      Step.applyEffects context pos callee receiver values := by
  unfold Step.applyEffects
  rw [applyArguments_told same, same]

end Calls

/-! ## Nodes ask about the units that they call -/

namespace Simulation.Concordant

variable {context : Context} {summaries : Summaries}

theorem mono {nodes others : List Node} (concordant : Concordant context summaries nodes)
    (within : others ⊆ nodes) : Concordant context summaries others :=
  fun node member => concordant node (within member)

mutual

/-- The evaluation of a node does not depend on what is said about units that it does not
call. -/
theorem eval_eq (scope : ScopeId) :
    (node : Node) → Concordant context summaries node.preorder →
    Step.eval (context.told summaries) scope node = Step.eval context scope node
  | .absent, _ => by rw [Step.eval, Step.eval]
  | .vacant, _ => by rw [Step.eval, Step.eval]
  | .block pos stmts, concordant => by
      rw [Step.eval, Step.eval]
      refine bind_congr fun child => ?_
      rw [block_eq child stmts (concordant.mono (List.subset_cons_self _ _))]
  | .literal pos value isNil, _ => by rw [Step.eval, Step.eval]
  | .reference target, _ => by rw [Step.eval, Step.eval, reference_told]
  | .new pos type maker args, concordant => by
      have inside := concordant.mono (List.subset_cons_self _ _)
      rw [Step.eval, Step.eval]
      refine congrArg (Step.locate pos .new) (bind_congr fun made => ?_)
      split
      next plain => rw [attach_eq scope pos made 0 args inside]
      next named =>
        refine Step.method_bind_congr fun callee known => ?_
        have same := concordant _ (.head _) _ callee
          (by simp only [Node.callee, named, ↓reduceIte]) known
        rw [requireAnalyzed_told same, evalNamed_eq scope args inside]
        simp only [applyEffects_told same]
  | .localVar pos type declarators, concordant => by
      rw [Step.eval, Step.eval,
        declareAll_eq scope type declarators (concordant.mono (List.subset_cons_self _ _))]
  | .assign pos target value, concordant => by
      have inside : value.preorder ⊆ (Node.assign pos target value).preorder :=
        fun node member => .tail _ (List.mem_append_right _ member)
      rw [Step.eval, Step.eval, eval_eq scope value (concordant.mono inside)]
      simp only [assign_told]
  | .ret pos values, concordant => by
      rw [Step.eval, Step.eval,
        returnAll_eq scope values (concordant.mono (List.subset_cons_self _ _))]
  | .call pos qualifier member args, concordant => by
      rw [Step.eval, Step.eval]
      refine congrArg (Step.locate pos .call) (Step.ofRegistry_bind_congr fun type typed => ?_)
      refine Step.method_bind_congr fun callee known => ?_
      have same := concordant _ (.head _) ⟨type, member⟩ callee
        (by simp only [Node.callee, typed]) known
      rw [callReceiver_told, requireAnalyzed_told same,
        evalAll_eq scope args (concordant.mono (List.subset_cons_self _ _))]
      simp only [applyEffects_told same]
  | .operation pos op operands, concordant => by
      rw [Step.eval, Step.eval,
        evalAll_eq scope operands (concordant.mono (List.subset_cons_self _ _))]
  | .unsupported pos construct, _ => by
      rw [Step.eval, Step.eval]
      rfl
  | .alien pos kind, _ => by
      rw [Step.eval, Step.eval]
      rfl
  termination_by structural node => node

theorem block_eq (scope : ScopeId) :
    (stmts : List Node) → Concordant context summaries (Node.preorderAll stmts) →
    Step.block (context.told summaries) scope stmts = Step.block context scope stmts
  | [], _ => by rw [Step.block, Step.block]
  | stmt :: rest, concordant => by
      rw [Step.block, Step.block,
        eval_eq scope stmt (concordant.mono (List.subset_append_left _ _)),
        block_eq scope rest (concordant.mono (List.subset_append_right _ _))]
      rfl
  termination_by structural stmts => stmts

theorem evalAll_eq (scope : ScopeId) :
    (nodes : List Node) → Concordant context summaries (Node.preorderAll nodes) →
    Step.evalAll (context.told summaries) scope nodes = Step.evalAll context scope nodes
  | [], _ => by rw [Step.evalAll, Step.evalAll]
  | node :: rest, concordant => by
      rw [Step.evalAll, Step.evalAll,
        eval_eq scope node (concordant.mono (List.subset_append_left _ _)),
        evalAll_eq scope rest (concordant.mono (List.subset_append_right _ _))]
  termination_by structural nodes => nodes

theorem evalNamed_eq (scope : ScopeId) :
    (args : List (String × Node)) → Concordant context summaries (Node.preorderNamed args) →
    Step.evalNamed (context.told summaries) scope args = Step.evalNamed context scope args
  | [], _ => by rw [Step.evalNamed, Step.evalNamed]
  | (name, node) :: rest, concordant => by
      rw [Step.evalNamed, Step.evalNamed,
        eval_eq scope node (concordant.mono (List.subset_append_left _ _)),
        evalNamed_eq scope rest (concordant.mono (List.subset_append_right _ _))]
  termination_by structural args => args

theorem attach_eq (scope : ScopeId) (pos : Int) (owner : Ref) (index : Nat) :
    (args : List (String × Node)) → Concordant context summaries (Node.preorderNamed args) →
    Step.attach (context.told summaries) scope pos owner index args =
      Step.attach context scope pos owner index args
  | [], _ => by rw [Step.attach, Step.attach]
  | (name, node) :: rest, concordant => by
      rw [Step.attach, Step.attach,
        eval_eq scope node (concordant.mono (List.subset_append_left _ _)),
        attach_eq scope pos owner (index + 1) rest
          (concordant.mono (List.subset_append_right _ _))]
  termination_by structural args => args

theorem declareAll_eq (scope : ScopeId) (type : String) :
    (declarators : List (String × Node)) →
    Concordant context summaries (Node.preorderNamed declarators) →
    Step.declareAll (context.told summaries) scope type declarators =
      Step.declareAll context scope type declarators
  | [], _ => by rw [Step.declareAll, Step.declareAll]
  | (name, node) :: rest, concordant => by
      rw [Step.declareAll, Step.declareAll,
        eval_eq scope node (concordant.mono (List.subset_append_left _ _)),
        declareAll_eq scope type rest (concordant.mono (List.subset_append_right _ _))]
  termination_by structural declarators => declarators

theorem returnAll_eq (scope : ScopeId) :
    (values : List Node) → Concordant context summaries (Node.preorderAll values) →
    Step.returnAll (context.told summaries) scope values = Step.returnAll context scope values
  | [], _ => by rw [Step.returnAll, Step.returnAll]
  | node :: rest, concordant => by
      rw [Step.returnAll, Step.returnAll,
        eval_eq scope node (concordant.mono (List.subset_append_left _ _)),
        returnAll_eq scope rest (concordant.mono (List.subset_append_right _ _))]
  termination_by structural values => values

end

end Simulation.Concordant

variable {context : Context} {summaries : Summaries}

/-- The evaluation of a body does not depend on them either. -/
theorem body_eq
    (concordant : Simulation.Concordant context summaries context.method.decl.nodes)
    (root : ScopeId) : body (context.told summaries) root = body context root := by
  refine bind_congr fun inner => ?_
  cases declared : context.method.decl.body with
  | none => rfl
  | some block =>
      have inside : Simulation.Concordant context summaries (Node.preorderAll block.stmts) :=
        concordant.mono (by
          unfold MethodDecl.nodes
          rw [declared]
          exact List.subset_cons_self _ _)
      exact congrArg (· >>= fun _ => pure inner) (inside.block_eq inner block.stmts)

/-- So does not what comes of a unit. -/
theorem run_eq
    (concordant : Simulation.Concordant context summaries context.method.decl.nodes)
    (lastId : Nat) : run (context.told summaries) lastId = run context lastId := by
  have evaluated : ∀ root, evaluate (context.told summaries) root = evaluate context root := by
    intro root
    unfold evaluate
    rw [body_eq concordant root]
    rfl
  unfold run
  simp only [evaluated]

/-! ## Units depend on those before them -/

/-- What comes of a unit depends on the units before it in the graph only: with summaries that
say the same about these, its evaluation ends with the same result or the same failure. -/
theorem run_eq_of_before (program : Program) {policy : Policy} {graph : Graph}
    (built : Graph.build (.ofProgram program) policy = .ok graph) {unit : UnitId}
    {node : GraphNode} {method : Method} (listed : graph.nodes.find? unit = some node)
    (stands : node.method = some method) {summaries others : Summaries}
    (agree : ∀ other callee, node.before.contains other = true →
      Registry.method? (.ofProgram program) other = some callee →
      others.of callee = summaries.of callee) (lastId : Nat) :
    run (.counting (.ofProgram program) others method) lastId =
      run (.counting (.ofProgram program) summaries method) lastId := by
  have consistent := Graph.consistent_build (Registry.named_ofProgram program) built
  obtain ⟨found, known, shown⟩ := consistent.method_of_find? listed
  obtain rfl : found = method := Option.some.inj (shown.symm.trans stands)
  have concordant : Simulation.Concordant (.counting (.ofProgram program) summaries found) others
      found.decl.nodes := by
    intro site member other callee named asked
    have calls : Graph.Calls (.ofProgram program) unit other :=
      ⟨found, known, site, member, named⟩
    exact agree other callee (((consistent.fits unit node listed).before other).2 calls) asked
  exact run_eq concordant lastId

/-- A method that calls another one, and a third that neither of them calls. -/
def till : Program := ⟨[⟨0, "Till", "", [⟨0, "Till", ["drawer"]⟩],
  [.plain "empty" [.assign 1 (some ⟨1, this, "drawer"⟩) (.literal 1 "nil" true)],
    .plain "shut" [.call 2 "" "empty" []],
    .plain "polish" []]⟩]⟩

/-- Only the method that is called has been analyzed. -/
def emptied : Summaries := Table.insert ∅ ⟨"Till", "empty"⟩ ⟨∅, .doesChange⟩

/-- The third method has been analyzed as well. -/
def polished : Summaries := emptied.insert ⟨"Till", "polish"⟩ ⟨∅, .doesNotChange⟩

theorem run_eq_of_before_till :
    ∃ graph node method, Graph.build (.ofProgram till) .unordered = .ok graph ∧
      graph.nodes.find? ⟨"Till", "shut"⟩ = some node ∧ node.method = some method ∧
      node.before.contains ⟨"Till", "empty"⟩ = true ∧ polished ≠ emptied ∧
      run (.counting (.ofProgram till) polished method) 0 =
        run (.counting (.ofProgram till) emptied method) 0 := by
  cases built : Graph.build (.ofProgram till) .unordered with
  | error error =>
      have builds : (Graph.build (.ofProgram till) .unordered).isOk = true := by decide +kernel
      rw [built] at builds
      cases builds
  | ok graph =>
      have shown : (Graph.build (.ofProgram till) .unordered).toOption.bind (fun graph =>
          (graph.nodes.find? ⟨"Till", "shut"⟩).map fun node =>
            (node.before.contains ⟨"Till", "empty"⟩, node.before.contains ⟨"Till", "polish"⟩)) =
          some (true, false) := by
        decide +kernel
      rw [built] at shown
      obtain ⟨node, listed, called⟩ := Option.map_eq_some_iff.1 shown
      obtain ⟨before, spared⟩ := Prod.mk.inj called
      have consistent := Graph.consistent_build (Registry.named_ofProgram till) built
      obtain ⟨method, -, stands⟩ := consistent.method_of_find? listed
      refine ⟨graph, node, method, rfl, listed, stands, before, by decide +kernel, ?_⟩
      refine run_eq_of_before till built listed stands (fun other callee contained found => ?_) 0
      have apart : callee.unit ≠ ⟨"Till", "polish"⟩ := by
        rw [Registry.named_ofProgram till other callee found]
        rintro rfl
        rw [spared] at contained
        cases contained
      rw [Summaries.of, Summaries.of, polished, Table.find?_insert_of_ne apart]

end Custody.Eval
