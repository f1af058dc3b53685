import Custody.Proofs.Eval.Aftermath
import Custody.Proofs.Eval.Knowledge

/-!
# What a call stands for

A unit may pass several of the objects forward that it is given.  A call of it stands for
one of them, the first: its result is that object, and where a field of the result is
assigned later, that object is changed.  The other objects are not affected by such an
assignment, although the unit may as well have returned one of them.
-/

namespace Custody.Eval

open Code

/-! ## Calls -/

/-- The unit that a node calls, the object that receives the call, and the arguments: a
method on the object that the qualifier denotes, or a constructor on a new object. -/
def passes (context : Context) (scope : ScopeId) : Node →
    Step (Method × Option Ref × List (Option Ref))
  | .call _ qualifier member args => do
      let type ← Step.ofRegistry (context.registry.qualifierType context.method qualifier)
      let callee ← Step.method context ⟨type, member⟩
      let receiver ← Step.callReceiver context scope qualifier
      Step.requireAnalyzed context callee
      return (callee, receiver, ← Step.evalAll context scope args)
  | .new _ type maker args => do
      let made ← Step.onHeap (Heap.allocate type false)
      if maker = "" then throw .malformed
      else
        let callee ← Step.method context ⟨type, constructorMember maker⟩
        Step.requireAnalyzed context callee
        return (callee, some made, ← Step.evalNamed context scope args)
  | _ => throw .malformed

/-- The parameter that receives the argument at a place is passed forward. -/
def forwards (summary : Summary) (callee : Method) (index : Nat) : Bool :=
  (callee.paramAt? index).any fun param =>
    summary.params.find? param.name = some .passForward

/-- The objects among the arguments and the receiver of a call that are passed forward. -/
def forwarded (summary : Summary) (callee : Method) (receiver : Option Ref)
    (values : List (Option Ref)) : List Ref :=
  (values.zipIdx.flatMap fun (value, index) =>
      if forwards summary callee index then value.toList else []) ++
    if summary.receiver = .passForward then receiver.toList else []

section Calls

variable {context : Context} {callee : Method} {pos : Int} {receiver : Option Ref}
variable {frame next : Frame}

/-- Without a parameter for one argument there is none for those after it. -/
theorem forwards_eq_false {index : Nat} (surplus : callee.paramAt? index = none)
    (summary : Summary) (later : Nat) : forwards summary callee later = false := by
  have bare : callee.params = [] := by
    unfold Method.paramAt? at surplus
    rw [if_neg (by omega)] at surplus
    split at surplus
    next inside =>
      rw [Int.toNat_natCast] at inside surplus
      rw [List.getElem?_eq_getElem inside] at surplus
      cases surplus
    next => exact List.getLast?_eq_none_iff.1 surplus
  simp [forwards, Method.paramAt?, bare]

/-- The result is the first object passed forward, after what has been found before. -/
theorem result_applyArguments {values : List (Option Ref)} {index : Nat} {result found : Option Ref}
    (done : Step.applyArguments context pos callee receiver index values result frame =
      .ok found next) :
    found = result.or ((values.zipIdx index).flatMap fun (value, index) =>
      if forwards (context.summaries.of callee) callee index then value.toList else []).head? := by
  induction values generalizing index result frame with
  | nil =>
      cases done
      simp
  | cons value rest ih =>
      rw [List.zipIdx_cons, List.flatMap_cons, List.head?_append]
      unfold Step.applyArguments at done
      cases placed : callee.paramAt? index with
      | none =>
          simp only [placed] at done
          cases done
          have none : (rest.zipIdx (index + 1)).flatMap (fun (value, index) =>
              if forwards (context.summaries.of callee) callee index then value.toList else []) =
              [] :=
            List.flatMap_eq_nil_iff.2 fun _ _ => by simp [forwards_eq_false placed]
          rw [none]
          simp [forwards_eq_false placed]
      | some param =>
          simp only [placed, Summary.param] at done
          have answer : forwards (context.summaries.of callee) callee index =
              decide ((context.summaries.of callee).params.find? param.name =
                some .passForward) := by
            simp [forwards, placed]
          cases said : (context.summaries.of callee).params.find? param.name with
          | none =>
              rw [said] at done
              cases done
          | some effect =>
              rw [said] at done answer
              cases effect with
              | unknown => cases done
              | passForward =>
                  rw [ih done, Option.or_assoc]
                  simp [answer]
              | doesNotChange =>
                  rw [ih done]
                  simp [answer]
              | doesChange =>
                  obtain ⟨_, middle, _, done⟩ : ∃ _ : Unit, ∃ middle, True ∧
                      Step.applyArguments context pos callee receiver (index + 1) rest result
                        middle = .ok found next := by
                    cases value with
                    | none => exact ⟨(), frame, trivial, done⟩
                    | some value =>
                        obtain ⟨_, middle, _, done⟩ := bind_eq_ok done
                        exact ⟨(), middle, trivial, done⟩
                  rw [ih done]
                  simp [answer]

/-- The result is the first object passed forward. -/
theorem result_applyEffects {values : List (Option Ref)} {found : Option Ref}
    (done : Step.applyEffects context pos callee receiver values frame = .ok found next) :
    found = (forwarded (context.summaries.of callee) callee receiver values).head? := by
  obtain ⟨result, middle, applied, done⟩ := bind_eq_ok done
  have first := result_applyArguments applied
  rw [Option.none_or] at first
  rw [forwarded, List.head?_append, ← first]
  cases effect : (context.summaries.of callee).receiver with
  | doesChange =>
      rw [effect] at done
      obtain ⟨_, _, _, told⟩ := bind_eq_ok done
      cases told
      simp
  | passForward =>
      rw [effect] at done
      cases done
      simp
  | doesNotChange | unknown =>
      rw [effect] at done
      cases done
      simp

/-- A call that passes something forward returns the first object that it passes forward. -/
theorem eval_of_passes {scope : ScopeId} {node : Node} {values : List (Option Ref)}
    {reached : Frame} {value : Option Ref} {object : Ref}
    (passed : passes context scope node frame = .ok (callee, receiver, values) reached)
    (first : (forwarded (context.summaries.of callee) callee receiver values).head? = some object)
    (done : Step.eval context scope node frame = .ok value next) : value = some object := by
  cases node with
  | call pos qualifier member args =>
      rw [Step.eval] at done
      obtain ⟨type, typed, types, done⟩ := bind_eq_ok (Step.locate_eq_ok done)
      rw [passes, bind_of_ok types] at passed
      obtain ⟨callee, found, finds, done⟩ := bind_eq_ok done
      rw [bind_of_ok finds] at passed
      obtain ⟨receiver, received, receives, done⟩ := bind_eq_ok done
      rw [bind_of_ok receives] at passed
      obtain ⟨_, checked, checks, done⟩ := bind_eq_ok done
      rw [bind_of_ok checks] at passed
      obtain ⟨values, evaluated, evaluates, done⟩ := bind_eq_ok done
      rw [bind_of_ok evaluates] at passed
      cases passed
      obtain ⟨result, applied, applies, done⟩ := bind_eq_ok done
      rw [result_applyEffects applies, first] at done
      cases done
      rfl
  | new pos type maker args =>
      rw [Step.eval] at done
      obtain ⟨made, allocated, allocates, done⟩ := bind_eq_ok (Step.locate_eq_ok done)
      rw [passes, bind_of_ok allocates] at passed
      by_cases plain : maker = ""
      · rw [if_pos plain] at passed
        cases passed
      · rw [if_neg plain] at passed done
        obtain ⟨callee, found, finds, done⟩ := bind_eq_ok done
        rw [bind_of_ok finds] at passed
        obtain ⟨_, checked, checks, done⟩ := bind_eq_ok done
        rw [bind_of_ok checks] at passed
        obtain ⟨values, evaluated, evaluates, done⟩ := bind_eq_ok done
        rw [bind_of_ok evaluates] at passed
        cases passed
        obtain ⟨result, applied, applies, done⟩ := bind_eq_ok done
        rw [result_applyEffects applies, first] at done
        cases done
        rfl
  | _ => cases passed

end Calls

/-! ## Assignments -/

/-- The evaluation of a site assigns a field of the object: of the one that the qualifier of
its target denotes once the value is there, or of the receiver without one. -/
inductive Site.Assigns (context : Context) : Site → Ref → Prop where
  | field {scope : ScopeId} {pos : Int} {target : Reference} {value : Node} {type : String}
      {frame evaluated reached : Frame} {stored : Option Ref} {owner : Ref}
      (qualified : target.qualifier ≠ "")
      (before : Step.eval context scope value frame = .ok stored evaluated)
      (denotes : Step.path context scope target.qualifier evaluated =
        .ok (some owner, type) reached) :
      Assigns context ⟨scope, .assign pos (some target) value, frame⟩ owner
  | own {scope : ScopeId} {pos : Int} {target : Reference} {value : Node}
      {frame evaluated reached : Frame} {stored : Option Ref} {owner : Ref}
      (bare : target.qualifier = "") (other : target.member ≠ this)
      (before : Step.eval context scope value frame = .ok stored evaluated)
      (free : evaluated.memory.lookup? scope target.member = none)
      (denotes : Step.receiver scope evaluated = .ok (some owner) reached) :
      Assigns context ⟨scope, .assign pos (some target) value, frame⟩ owner

section Assignments

variable {registry : Registry} {summaries : Summaries} {method : Method} {frame next : Frame}

/-- Nobody relies any more on an object whose field has been assigned. -/
theorem unwatched_of_store {pos : Int} {owner : Ref} {type name : String} {value : Option Ref}
    (done : Step.store (.counting registry summaries method) pos (some owner) type name value frame =
      .ok () next) : next.Unwatched owner := by
  rw [Step.store_eq] at done
  obtain ⟨_, _, typed, done⟩ := bind_eq_ok done
  rw [(Step.ofRegistry_eq_ok typed).2] at done
  have overwrites : Step.overwrite (.counting registry summaries method) pos owner name value frame =
      .ok () next := done
  rw [Step.overwrite_eq] at overwrites
  obtain ⟨heap, _, rfl⟩ := Step.onHeap_eq_ok overwrites
  have first : (frame.taint pos (some owner)).Unwatched owner := by
    rintro tracked member rfl watched
    exact not_leads_of_taint member watched .refl
  exact (Ages.taint _ pos value).unwatched first

/-- Nobody relies any more on an object whose field a site assigns. -/
theorem Site.Assigns.unwatched {site : Site} {owner : Ref} {value : Option Ref}
    (assigns : site.Assigns (.counting registry summaries method) owner)
    (done : Step.eval (.counting registry summaries method) site.scope site.node site.frame =
      .ok value next) : next.Unwatched owner := by
  cases assigns with
  | field qualified before denotes =>
      rw [Step.eval] at done
      obtain ⟨_, _, evaluates, done⟩ := bind_eq_ok (Step.locate_eq_ok done)
      cases before.symm.trans evaluates
      obtain ⟨_, _, stores, told⟩ := bind_eq_ok done
      cases told
      rw [Step.assign, if_pos qualified, bind_of_ok denotes] at stores
      exact unwatched_of_store stores
  | own bare other before free denotes =>
      rw [Step.eval] at done
      obtain ⟨_, _, evaluates, done⟩ := bind_eq_ok (Step.locate_eq_ok done)
      cases before.symm.trans evaluates
      obtain ⟨_, assigned, stores, told⟩ := bind_eq_ok done
      cases told
      rw [Step.assign, if_neg (not_not.2 bare), if_neg other,
        bind_of_ok (rfl : (get : Step Frame) _ = .ok _ _)] at stores
      simp only [free] at stores
      rw [bind_of_ok denotes] at stores
      exact unwatched_of_store stores

end Assignments

/-! ## What a result stands for -/

/-- The result of a call stands for an object: where a field of the result is assigned, the
parameter that the object was passed in for is changed, unless it is a copy. -/
def StandsFor (context : Context) (lastId : Nat) (result : Result) (call : Site) (object : Ref) :
    Prop :=
  ∀ made after store, Step.eval context call.scope call.node call.frame = .ok (some made) after →
    Visits context lastId store → store.Assigns context made →
    ∀ tracked ∈ call.frame.params, tracked.object = object → tracked.copied = false →
      result.effects.find? tracked.name = some .doesChange

/-- A call returns the first object that its unit passes forward, and stands for it. -/
theorem call_standsFor_first (registry : Registry) (summaries : Summaries) (method : Method)
    (lastId : Nat) {result : Result} {call : Site} {callee : Method} {receiver : Option Ref}
    {values : List (Option Ref)} {reached : Frame} {object : Ref}
    (distinct : (method.params.map (·.name)).Nodup)
    (done : (run (.counting registry summaries method) lastId).result = .ok result)
    (visits : Visits (.counting registry summaries method) lastId call)
    (passed : passes (.counting registry summaries method) call.scope call.node call.frame =
      .ok (callee, receiver, values) reached)
    (first : (forwarded (summaries.of callee) callee receiver values).head? = some object) :
    (∃ after, Step.eval (.counting registry summaries method) call.scope call.node call.frame =
      .ok (some object) after) ∧
      StandsFor (.counting registry summaries method) lastId result call object := by
  obtain ⟨_, _, entry, memory, inner, last, _, entered, finished, _, rfl⟩ := run_eq_ok done
  obtain ⟨value, after, evaluated, onward⟩ := visits.resumes entered finished
  cases eval_of_passes passed first evaluated
  refine ⟨⟨after, evaluated⟩, ?_⟩
  intro made also store again visits assigns tracked member here copied
  cases evaluated.symm.trans again
  obtain ⟨_, assigned, stored, rest⟩ := visits.resumes entered finished
  have unwatched := rest.keeps.2.unwatched (assigns.unwatched stored)
  -- the parameter is still there at the end of the body
  have listed : tracked.passed ∈ last.params.map (·.passed) := by
    rw [(((Follows.eval call.scope call.node).reached evaluated).trans onward).passed_params]
    exact List.mem_map_of_mem member
  obtain ⟨param, inside, same⟩ := List.mem_map.1 listed
  obtain ⟨name, place, copy⟩ := Tracked.passed_eq_iff.1 same
  have changed : param.effect = .doesChange := by
    by_contra unchanged
    exact unwatched param (.tail _ inside) (place.trans here) ⟨copy.trans copied, unchanged⟩
  have names : last.params.map (·.name) = method.params.map (·.name) := by
    have named : ∀ frame : Frame, frame.params.map (·.name) =
        (frame.params.map (·.passed)).map (·.1) :=
      fun frame => by simp [Tracked.passed, Function.comp_def]
    rw [named, ((Follows.body entry.root).reached finished).passed_params, ← named]
    exact names_enter entered
  refine (Table.find?_ofList_iff ?_).2 (List.mem_map.2 ⟨param, inside, ?_⟩)
  · rw [List.map_map]
    exact names ▸ distinct
  · rw [name, changed]

/-! ## One of two -/

namespace Picking

/-- A method that returns one of two objects or the other. -/
def pick : MethodDecl where
  pos := 0
  name := "pick"
  params := [⟨0, "left", "Cell", false⟩, ⟨0, "right", "Cell", false⟩]
  result := "Cell"
  isConstructor := false
  valueReceiver := false
  body := some ⟨0, [.block 1 [.ret 2 [.reference ⟨2, "", "left"⟩]],
    .ret 3 [.reference ⟨3, "", "right"⟩]]⟩

/-- A call with both parameters as its arguments. -/
def call : Node :=
  .call 1 "" "pick" [.reference ⟨1, "", "first"⟩, .reference ⟨1, "", "second"⟩]

def declaration : Node := .localVar 1 "Cell" [("own", call)]

def assignment : Node := .assign 2 (some ⟨2, "own", "next"⟩) (.literal 2 "" true)

/-- A method that picks one of its parameters and assigns a field of what it got. -/
def relink : MethodDecl where
  pos := 0
  name := "relink"
  params := [⟨0, "first", "Cell", false⟩, ⟨0, "second", "Cell", false⟩]
  result := ""
  isConstructor := false
  valueReceiver := false
  body := some ⟨0, [declaration, assignment]⟩

def cells : Registry := .ofProgram ⟨[⟨0, "Cell", "", [⟨0, "Cell", ["next"]⟩], [pick, relink]⟩]⟩

/-- Both objects are passed forward. -/
def picked : Summary := ⟨.ofList [("left", .passForward), ("right", .passForward)], .doesNotChange⟩

abbrev evaluation : Context :=
  .counting cells (.ofList [(⟨"Cell", "pick"⟩, picked)]) (.ofDecl "Cell" relink)

/-- Only the first parameter is changed. -/
def relinked : Result where
  effects := .ofList [("first", .doesChange), ("second", .doesNotChange)]
  receiver := .doesNotChange
  changes := .ofList [("first", 2)]
  heap := [⟨1, 1, "Cell", []⟩, ⟨2, 1, "", []⟩, ⟨3, 3, "Cell", []⟩, ⟨4, 2, "Cell", []⟩]
  skipped := []

/-- The evaluation comes to the call and then to the assignment. -/
structure Arrival where
  call : Site
  callee : Method
  receiver : Option Ref
  values : List (Option Ref)
  reached : Frame
  made : Ref
  after : Frame
  store : Site
  owner : Ref

def arrival? : Option Arrival :=
  match enter .counting evaluation.method (.ofHeap (.startingAfter 0)) with
  | .error _ _ => none
  | .ok entry memory =>
      match steps entry.root [] (entry.frame memory),
          steps entry.root [declaration] (entry.frame memory) with
      | .ok scope frame, .ok inner later =>
          match passes evaluation scope call frame, Step.eval evaluation scope call frame,
              Step.path evaluation inner "own" later with
          | .ok (callee, receiver, values) reached, .ok (some made) after, .ok (some owner, _) _ =>
              some ⟨⟨scope, call, frame⟩, callee, receiver, values, reached, made, after,
                ⟨inner, assignment, later⟩, owner⟩
          | _, _, _ => none
      | _, _ => none
where
  steps (scope : ScopeId) (past : List Node) : Step ScopeId := do
    let child ← Step.onMemory (Memory.openChild scope)
    Step.block evaluation child past
    return child

/-- How the evaluation has come there. -/
structure Arrival.Comes (arrival : Arrival) : Prop where
  call : Visits evaluation 0 arrival.call
  passed : passes evaluation arrival.call.scope arrival.call.node arrival.call.frame =
    .ok (arrival.callee, arrival.receiver, arrival.values) arrival.reached
  returned : Step.eval evaluation arrival.call.scope arrival.call.node arrival.call.frame =
    .ok (some arrival.made) arrival.after
  store : Visits evaluation 0 arrival.store
  later : Reached evaluation arrival.after arrival.store.frame
  assigns : arrival.store.Assigns evaluation arrival.owner

theorem comes_of_arrival? {arrival : Arrival} (found : arrival? = some arrival) :
    arrival.Comes := by
  unfold arrival? at found
  split at found
  · cases found
  next entry memory entered =>
    split at found
    next scope frame inner later first second =>
      split at found
      next callee receiver values reached made after owner type last passed returned denotes =>
        cases found
        have declared : Visits evaluation 0 ⟨scope, declaration, frame⟩ :=
          .stmt entered rfl (@Site.Enters.stmt _ _ _ _ [] [assignment] _ _ _ first)
        have inside : Site.Enters evaluation ⟨scope, declaration, frame⟩ ⟨scope, call, frame⟩ :=
          @Site.Enters.initial _ _ _ _ _ [] [] _ _ _ rfl
        refine ⟨declared.inside inside, passed, returned,
          .stmt entered rfl (@Site.Enters.stmt _ _ _ _ [declaration] [] _ _ _ second), ?_,
          .field (by decide) (by rw [Step.eval]; rfl) denotes⟩
        obtain ⟨_, _, opens, first⟩ := bind_eq_ok first
        obtain ⟨_, _, block, told⟩ := bind_eq_ok first
        cases block
        cases told
        obtain ⟨_, _, opened, second⟩ := bind_eq_ok second
        cases opens.symm.trans opened
        obtain ⟨_, _, block, told⟩ := bind_eq_ok second
        cases told
        have none : Recorder.block evaluation scope [] ⟨frame, []⟩ = .ok () ⟨frame, []⟩ := rfl
        have passes : Passes (Recorder.block evaluation scope [declaration]) ⟨frame, []⟩
            (Recorder.eval evaluation scope declaration) ⟨frame, []⟩ :=
          (Turns.block _ _ _ scope).passes 0 none
        obtain ⟨_, middle, evaluated, onward⟩ :=
          passes.resumes (.block scope [declaration]) (.eval scope declaration) (.refl _ _) block
        obtain ⟨_, _, here, before⟩ := inside.resumes evaluated
        cases returned.symm.trans here
        exact before.trans onward
      next => cases found
    next => cases found

theorem isSome_arrival? : arrival?.isSome = true := by decide +kernel

/-- The call passes both parameters, and returns the object that is assigned. -/
theorem passes_both : ∀ arrival ∈ arrival?,
    arrival.made = arrival.owner ∧ evaluation.summaries.of arrival.callee = picked ∧
      forwarded (evaluation.summaries.of arrival.callee) arrival.callee arrival.receiver
        arrival.values = [2, 3] ∧
      arrival.call.frame.params = [.new "first" 2 false, .new "second" 3 false] := by
  decide +kernel

end Picking

/-- The first parameter is changed when a field of what was picked is assigned. -/
theorem call_standsFor_first_relink :
    ∃ call callee receiver values reached, (Picking.relink.params.map (·.name)).Nodup ∧
      (run Picking.evaluation 0).result = .ok Picking.relinked ∧
      Visits Picking.evaluation 0 call ∧
      passes Picking.evaluation call.scope call.node call.frame =
        .ok (callee, receiver, values) reached ∧
      (forwarded (Picking.evaluation.summaries.of callee) callee receiver values).head? = some 2 ∧
      (∃ after, Step.eval Picking.evaluation call.scope call.node call.frame =
        .ok (some 2) after) ∧
      StandsFor Picking.evaluation 0 Picking.relinked call 2 := by
  obtain ⟨arrival, found⟩ := Option.isSome_iff_exists.1 Picking.isSome_arrival?
  have comes := Picking.comes_of_arrival? found
  have distinct : (Picking.relink.params.map (·.name)).Nodup := by decide
  have done : (run Picking.evaluation 0).result = .ok Picking.relinked := by decide +kernel
  have first : (forwarded (Picking.evaluation.summaries.of arrival.callee) arrival.callee
      arrival.receiver arrival.values).head? = some 2 := by
    rw [(Picking.passes_both arrival found).2.2.1]
    rfl
  exact ⟨arrival.call, arrival.callee, arrival.receiver, arrival.values, arrival.reached, distinct,
    done, comes.call, comes.passed, first,
    call_standsFor_first _ _ _ 0 distinct done comes.call comes.passed first⟩

/-- A unit may forward either of two parameters, as its own evaluation finds, and a call of it
with two parameters of another unit does not stand for the second of these: a field of the
result is assigned later, but the second parameter counts as unchanged. -/
theorem not_standsFor_second :
    (run (.counting Picking.cells ∅ (.ofDecl "Cell" Picking.pick)) 0).result.toOption.map
        (·.summary) = some Picking.picked ∧
      (run Picking.evaluation 0).result = .ok Picking.relinked ∧
      ∃ call callee receiver values reached, Visits Picking.evaluation 0 call ∧
        passes Picking.evaluation call.scope call.node call.frame =
          .ok (callee, receiver, values) reached ∧
        Picking.evaluation.summaries.of callee = Picking.picked ∧
        3 ∈ forwarded (Picking.evaluation.summaries.of callee) callee receiver values ∧
        (∃ made after store, Step.eval Picking.evaluation call.scope call.node call.frame =
            .ok (some made) after ∧
          Reached Picking.evaluation after store.frame ∧ Visits Picking.evaluation 0 store ∧
          store.Assigns Picking.evaluation made) ∧
        ¬StandsFor Picking.evaluation 0 Picking.relinked call 3 := by
  obtain ⟨arrival, found⟩ := Option.isSome_iff_exists.1 Picking.isSome_arrival?
  have comes := Picking.comes_of_arrival? found
  obtain ⟨same, said, both, params⟩ := Picking.passes_both arrival found
  have assigns := comes.assigns
  rw [← same] at assigns
  refine ⟨by decide +kernel, by decide +kernel, arrival.call, arrival.callee, arrival.receiver,
    arrival.values, arrival.reached, comes.call, comes.passed, said, ?_,
    ⟨arrival.made, arrival.after, arrival.store, comes.returned, comes.later, comes.store, assigns⟩,
    fun stands => ?_⟩
  · rw [both]
    decide
  · have changed := stands arrival.made arrival.after arrival.store comes.returned comes.store assigns
      (.new "second" 3 false) (by rw [params]; exact .tail _ (.head _)) rfl rfl
    revert changed
    decide +kernel

end Custody.Eval
