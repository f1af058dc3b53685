import Custody.Eval.Unit
import Custody.Graph.Edges
import Custody.Proofs.Eval.Guarantee
import Custody.Proofs.Eval.Simulation

/-!
# Invariants of an evaluation

`Invariant` lists what the steps that touch a frame have to keep, and the causes for
which they may fail.  If they do, the whole evaluation of every node does, as long as
the summaries of the units that the node calls give no other cause for a failure.

An invariant is told which scopes are open and which temporaries are in hand.  No
evaluation answers with a temporary that somebody else has in hand: its answer is a
new object, or was held by a binding or field when it was read.
-/

namespace Custody

/-- Every argument is received by a parameter of the method. -/
theorem Method.mem_params_of_paramAt? {method : Method} {index : Int} {param : Code.Param}
    (found : method.paramAt? index = some param) : param ∈ method.params := by
  unfold Method.paramAt? at found
  split at found
  · cases found
  · split at found
    · exact List.mem_of_getElem? found
    · exact List.mem_of_getLast? found

theorem Registry.method?_of_lookup {registry : Registry} {unit : UnitId} {owner : Class}
    (known : registry.lookup unit.owner = .ok owner) :
    registry.method? unit = owner.method? unit.member := by
  unfold Registry.lookup at known
  unfold Registry.method?
  split at known
  next found same =>
    cases known
    rw [same]
    rfl
  next => cases known

namespace Eval

open Code

/-- What the steps of an evaluation keep. -/
structure Invariant (context : Context) where
  /-- The causes for which a step may fail. -/
  Admits : Cause → Prop
  /-- The frame is in order, with scopes open and temporaries in hand. -/
  Holds : List ScopeId → List Ref → Frame → Prop
  /-- The object is held by a binding or a field. -/
  Readable : Heap → Ref → Prop
  /-- The object is none of the temporaries. -/
  Apart : List Ref → Ref → Prop
  registry : ∀ error, Admits (.registry error)
  notFound : ∀ name, Admits (.notFound name)
  noMethod : ∀ unit, Admits (.noMethod unit)
  forget : ∀ {opened temporary temporaries frame},
    Holds opened (temporary :: temporaries) frame → Holds opened temporaries frame
  apart_forget : ∀ {temporary temporaries object},
    Apart (temporary :: temporaries) object → Apart temporaries object
  apart : ∀ {opened temporaries frame object}, Holds opened temporaries frame →
    Readable frame.heap object → Apart temporaries object
  remark : ∀ {opened temporaries frame other}, frame.Remarked other →
    Holds opened temporaries frame → Holds opened temporaries other
  binding : ∀ {opened temporaries frame scope name binding},
    Holds opened temporaries frame → frame.memory.lookup? scope name = some binding →
    ∀ object ∈ (frame.memory.binding binding).object, Readable frame.heap object
  allocate : ∀ opened temporaries type,
    Ensures Admits (Holds opened temporaries)
      (fun made frame => Holds opened (made :: temporaries) frame ∧ Apart temporaries made)
      (Step.onHeap (Heap.allocate type false))
  read : ∀ opened temporaries owner type name,
    Ensures Admits (fun frame => Holds opened temporaries frame ∧ Readable frame.heap owner)
      (fun found frame =>
        Holds opened temporaries frame ∧ ∀ object ∈ found, Readable frame.heap object)
      (Step.read context owner type name)
  overwrite : ∀ opened temporaries pos owner ownerType name type value,
    context.registry.fieldType ownerType name = .ok type →
    (∀ object ∈ value, Apart temporaries object) →
    Ensures Admits (fun frame => Holds opened temporaries frame ∧ Readable frame.heap owner)
      (fun _ => Holds opened temporaries) (Step.overwrite context pos owner name value)
  construct : ∀ opened temporaries pos owner name value, owner ∈ temporaries →
    Apart temporaries value →
    Ensures Admits (Holds opened temporaries) (fun _ => Holds opened temporaries)
      (Step.construct context pos owner name value)
  capture : ∀ opened temporaries pos receiver callee param argument,
    Apart temporaries argument →
    Ensures Admits (Holds opened temporaries) (fun _ => Holds opened temporaries)
      (Step.capture context pos receiver callee param argument)
  openChild : ∀ opened temporaries scope,
    Ensures Admits (Holds opened temporaries) (fun child => Holds (child :: opened) temporaries)
      (Step.onMemory (Memory.openChild scope))
  close : ∀ opened temporaries scope,
    Ensures Admits (Holds (scope :: opened) temporaries) (fun _ => Holds opened temporaries)
      (Step.onMemory (Memory.close context.rules scope))
  declare : ∀ opened temporaries scope name type object, scope ∈ opened →
    (∀ ref ∈ object, Apart temporaries ref) →
    Ensures Admits (Holds opened temporaries) (fun _ => Holds opened temporaries)
      (Step.onMemory (Memory.declare context.rules scope name type object))
  rebind : ∀ opened temporaries scope name binding object,
    (∀ ref ∈ object, Apart temporaries ref) →
    Ensures Admits
      (fun frame => Holds opened temporaries frame ∧
        frame.memory.lookup? scope name = some binding)
      (fun _ => Holds opened temporaries)
      (Step.onMemory (Memory.rebind context.rules binding object))
  sweep : ∀ opened temporaries,
    Ensures Admits (Holds opened temporaries) (fun _ => Holds opened temporaries)
      (Step.onHeap context.rules.sweep)

namespace Invariant

/-- The same is kept where more causes are admitted. -/
def permit {context : Context} (invariant : Invariant context) (more : Cause → Prop)
    (wider : ∀ cause, invariant.Admits cause → more cause) : Invariant context :=
  { invariant with
    Admits := more
    registry := fun error => wider _ (invariant.registry error)
    notFound := fun name => wider _ (invariant.notFound name)
    noMethod := fun unit => wider _ (invariant.noMethod unit)
    allocate := fun opened temporaries type =>
      (invariant.allocate opened temporaries type).permit wider
    read := fun opened temporaries owner type name =>
      (invariant.read opened temporaries owner type name).permit wider
    overwrite := fun opened temporaries pos owner ownerType name type value typed apart =>
      (invariant.overwrite opened temporaries pos owner ownerType name type value typed apart).permit
        wider
    construct := fun opened temporaries pos owner name value held apart =>
      (invariant.construct opened temporaries pos owner name value held apart).permit wider
    capture := fun opened temporaries pos receiver callee param argument apart =>
      (invariant.capture opened temporaries pos receiver callee param argument apart).permit wider
    openChild := fun opened temporaries scope =>
      (invariant.openChild opened temporaries scope).permit wider
    close := fun opened temporaries scope =>
      (invariant.close opened temporaries scope).permit wider
    declare := fun opened temporaries scope name type object isOpen apart =>
      (invariant.declare opened temporaries scope name type object isOpen apart).permit wider
    rebind := fun opened temporaries scope name binding object apart =>
      (invariant.rebind opened temporaries scope name binding object apart).permit wider
    sweep := fun opened temporaries => (invariant.sweep opened temporaries).permit wider }

variable {context : Context} (invariant : Invariant context)
variable (opened : List ScopeId) (temporaries : List Ref)

/-- The frame is in order, and the object, if there is one, is held. -/
def HoldsOn (object : Option Ref) (frame : Frame) : Prop :=
  invariant.Holds opened temporaries frame ∧
    ∀ ref ∈ object, invariant.Readable frame.heap ref

/-- The frame is in order, and the object, if there is one, is no temporary. -/
def HoldsApart (object : Option Ref) (frame : Frame) : Prop :=
  invariant.Holds opened temporaries frame ∧ ∀ ref ∈ object, invariant.Apart temporaries ref

variable {opened temporaries} in
theorem HoldsOn.apart {object : Option Ref} {frame : Frame}
    (holds : invariant.HoldsOn opened temporaries object frame) :
    invariant.HoldsApart opened temporaries object frame :=
  ⟨holds.1, fun ref here => invariant.apart holds.1 (holds.2 ref here)⟩

/-! ## Marks -/

theorem modify {change : Frame → Frame} (remarks : ∀ frame : Frame, frame.Remarked (change frame)) :
    Ensures invariant.Admits (invariant.Holds opened temporaries)
      (fun _ => invariant.Holds opened temporaries) (modify change : Step Unit) :=
  fun frame holds => invariant.remark (remarks frame) holds

theorem taint (pos : Int) (object : Option Ref) :
    Ensures invariant.Admits (invariant.Holds opened temporaries)
      (fun _ => invariant.Holds opened temporaries) (Step.taint pos object) := by
  intro frame holds
  rw [Step.taint_eq]
  exact invariant.remark (.taint frame pos object) holds

theorem returned (object : Option Ref) :
    Ensures invariant.Admits (invariant.Holds opened temporaries)
      (fun _ => invariant.Holds opened temporaries) (Step.returned object) := by
  cases object with
  | none => exact .pure fun _ holds => holds
  | some object =>
      exact invariant.modify opened temporaries fun frame =>
        .mapTracked frame (fun tracked => tracked.name_returned _)
          fun tracked => tracked.object_returned _

theorem note {entry : LogEntry} (other : ∀ unit live, entry ≠ .objectsLeft unit live) :
    Ensures invariant.Admits (invariant.Holds opened temporaries)
      (fun _ => invariant.Holds opened temporaries) (Step.note entry) := by
  refine invariant.modify opened temporaries fun frame => ⟨rfl, rfl, rfl, rfl, rfl, ?_⟩
  intro unit live noted
  rcases List.mem_append.1 noted with earlier | last
  · exact earlier
  · exact (other unit live (List.mem_singleton.1 last).symm).elim

theorem skip (pos : Int) (construct : String) :
    Ensures invariant.Admits (invariant.Holds opened temporaries)
      (fun _ => invariant.Holds opened temporaries) (Step.skip context pos construct) := by
  unfold Step.skip
  refine (invariant.modify opened temporaries fun _ => ?_).bind fun _ => ?_
  · exact ⟨rfl, rfl, rfl, rfl, rfl, fun _ _ noted => noted⟩
  · exact invariant.note opened temporaries fun _ _ => by simp

/-! ## Reading and writing -/

theorem lookup? (scope : ScopeId) (name : String) :
    Ensures invariant.Admits (invariant.Holds opened temporaries)
      (fun found => invariant.HoldsOn opened temporaries (found.bind (·.object)))
      (Step.lookup? scope name) := by
  intro frame holds
  refine ⟨holds, fun ref held => ?_⟩
  cases found : frame.memory.lookup? scope name with
  | none => simp [found] at held
  | some binding =>
      rw [found] at held
      exact invariant.binding holds found ref held

theorem receiver (scope : ScopeId) :
    Ensures invariant.Admits (invariant.Holds opened temporaries)
      (invariant.HoldsOn opened temporaries) (Step.receiver scope) := by
  refine (invariant.lookup? opened temporaries scope this).bind fun found => ?_
  cases found with
  | some binding => exact .pure fun _ holds => holds
  | none => exact .fail (invariant.notFound this)

theorem field (owner : Option Ref) (ownerType name : String) :
    Ensures invariant.Admits (invariant.HoldsOn opened temporaries owner)
      (fun place => invariant.HoldsOn opened temporaries place.1)
      (Step.field context owner ownerType name) := by
  rw [Step.field_eq]
  refine (Ensures.ofRegistry invariant.registry).bind fun type => ?_
  cases owner with
  | none => exact .pure fun _ holds => holds.1
  | some owner =>
      refine Ensures.bind ((invariant.read opened temporaries owner type name).start
        fun _ holds => ⟨holds.1.1, holds.1.2 owner rfl⟩) fun found => ?_
      exact .pure fun _ holds => holds

theorem first (scope : ScopeId) (name : String) :
    Ensures invariant.Admits (invariant.Holds opened temporaries)
      (fun place => invariant.HoldsOn opened temporaries place.1)
      (Step.first context scope name) := by
  refine (invariant.lookup? opened temporaries scope name).bind fun found => ?_
  cases found with
  | some binding => exact .pure fun _ holds => holds
  | none =>
      refine Ensures.bind ((invariant.receiver opened temporaries scope).start
        fun _ holds => holds.1) fun object => ?_
      exact invariant.field opened temporaries object context.method.owner name

theorem follow (path : List String) (place : Option Ref × String) :
    Ensures invariant.Admits (invariant.HoldsOn opened temporaries place.1)
      (fun place => invariant.HoldsOn opened temporaries place.1)
      (Step.follow context place path) := by
  induction path generalizing place with
  | nil => exact .pure fun _ holds => holds
  | cons name rest ih =>
      obtain ⟨object, type⟩ := place
      exact (invariant.field opened temporaries object type name).bind ih

theorem path (scope : ScopeId) (qualifier : String) :
    Ensures invariant.Admits (invariant.Holds opened temporaries)
      (fun place => invariant.HoldsOn opened temporaries place.1)
      (Step.path context scope qualifier) :=
  (invariant.first opened temporaries scope _).bind (invariant.follow opened temporaries _)

theorem reference (scope : ScopeId) (target : Reference) :
    Ensures invariant.Admits (invariant.Holds opened temporaries)
      (invariant.HoldsApart opened temporaries) (Step.reference context scope target) := by
  unfold Step.reference
  split
  · refine (invariant.first opened temporaries scope target.member).bind fun place => ?_
    exact .pure fun _ holds => holds.apart
  · refine (invariant.path opened temporaries scope target.qualifier).bind fun place => ?_
    refine (invariant.field opened temporaries place.1 place.2 target.member).bind fun found => ?_
    exact .pure fun _ holds => holds.apart

theorem callReceiver (scope : ScopeId) (qualifier : String) :
    Ensures invariant.Admits (invariant.Holds opened temporaries)
      (invariant.HoldsApart opened temporaries) (Step.callReceiver context scope qualifier) := by
  unfold Step.callReceiver
  split
  · refine (invariant.first opened temporaries scope this).bind fun place => ?_
    exact .pure fun _ holds => holds.apart
  · refine (invariant.path opened temporaries scope qualifier).bind fun place => ?_
    exact .pure fun _ holds => holds.apart

section Writing

variable {value : Option Ref} (apart : ∀ ref ∈ value, invariant.Apart temporaries ref)

include apart

theorem store (pos : Int) (owner : Option Ref) (ownerType name : String) :
    Ensures invariant.Admits (invariant.HoldsOn opened temporaries owner)
      (fun _ => invariant.Holds opened temporaries)
      (Step.store context pos owner ownerType name value) := by
  rw [Step.store_eq]
  refine (Ensures.ofRegistry invariant.registry).bind fun type => .assuming fun declared => ?_
  cases owner with
  | none =>
      exact (invariant.note opened temporaries fun _ _ => by simp).start fun _ holds => holds.1
  | some owner =>
      exact (invariant.overwrite opened temporaries pos owner ownerType name type value declared
        apart).start fun _ holds => ⟨holds.1, holds.2 owner rfl⟩

theorem assign (scope : ScopeId) (pos : Int) (target : Reference) :
    Ensures invariant.Admits (invariant.Holds opened temporaries)
      (fun _ => invariant.Holds opened temporaries)
      (Step.assign context scope pos target value) := by
  unfold Step.assign
  split
  next =>
    refine (invariant.path opened temporaries scope target.qualifier).bind fun place => ?_
    exact invariant.store opened temporaries apart pos place.1 place.2 target.member
  next =>
    split
    next => exact invariant.skip opened temporaries pos _
    next =>
      refine .get fun frame holds => ?_
      cases found : frame.memory.lookup? scope target.member with
      | some binding =>
          exact invariant.rebind opened temporaries scope target.member binding value apart frame
            ⟨holds, found⟩
      | none =>
          exact (invariant.receiver opened temporaries scope).bind
            (fun object => invariant.store opened temporaries apart pos object _ _) frame holds

end Writing

/-! ## Temporaries -/

/-- A new object that nobody keeps in hand. -/
theorem allocateApart (type : String) :
    Ensures invariant.Admits (invariant.Holds opened temporaries)
      (invariant.HoldsApart opened temporaries)
      (some <$> Step.onHeap (Heap.allocate type false)) := by
  refine (invariant.allocate opened temporaries type).map fun made frame holds => ?_
  refine ⟨invariant.forget holds.1, fun ref here => ?_⟩
  cases here
  exact holds.2

theorem sweepAfter (stmt : Node) :
    Ensures invariant.Admits (invariant.Holds opened temporaries)
      (fun _ => invariant.Holds opened temporaries) (Step.sweepAfter context stmt) := by
  rw [Step.sweepAfter_eq]
  refine (invariant.sweep opened temporaries).reword fun failure cause named => ?_
  split at named
  · simpa using named
  · cases named

variable {temporaries} in
theorem apart_cons {value : Option Ref} {values : List (Option Ref)}
    (first : ∀ ref ∈ value, invariant.Apart temporaries ref)
    (rest : ∀ ref, some ref ∈ values → invariant.Apart temporaries ref) (ref : Ref)
    (member : some ref ∈ value :: values) : invariant.Apart temporaries ref := by
  rcases List.mem_cons.1 member with here | later
  · exact first ref here.symm
  · exact rest ref later

/-! ## Calling units -/

/-- The summary of a unit gives no cause for a failure that is not admitted. -/
structure Answers (callee : Method) : Prop where
  receiver : (context.summaries.of callee).receiver = .unknown →
    invariant.Admits (.notAnalyzed callee.unit)
  missing : ∀ param ∈ callee.params, ∀ error,
    (context.summaries.of callee).param callee.unit param.name = .error error →
      invariant.Admits (.summary error)
  unknown : ∀ param ∈ callee.params,
    (context.summaries.of callee).param callee.unit param.name = .ok .unknown →
      invariant.Admits (.unknownEffect param.name callee.unit)

/-- The summaries of all units that some nodes call give no such cause. -/
def AnswersAll (nodes : List Node) : Prop :=
  ∀ node ∈ nodes, ∀ unit callee, node.callee context.registry context.method = .ok (some unit) →
    context.registry.method? unit = some callee → invariant.Answers callee

variable {invariant} in
theorem AnswersAll.mono {nodes others : List Node} (answers : invariant.AnswersAll nodes)
    (within : others ⊆ nodes) : invariant.AnswersAll others :=
  fun node member => answers node (within member)

theorem method (unit : UnitId) :
    Ensures invariant.Admits (invariant.Holds opened temporaries)
      (fun callee frame => invariant.Holds opened temporaries frame ∧
        context.registry.method? unit = some callee)
      (Step.method context unit) := by
  refine (Ensures.ofRegistry invariant.registry).bind fun owner => .assuming fun known => ?_
  rw [Registry.method?_of_lookup known]
  cases owner.method? unit.member with
  | some callee => exact .pure fun _ holds => ⟨holds, rfl⟩
  | none => exact .fail (invariant.noMethod unit)

variable {callee : Method} (answers : invariant.Answers callee)

include answers

theorem requireAnalyzed :
    Ensures invariant.Admits (invariant.Holds opened temporaries)
      (fun _ => invariant.Holds opened temporaries) (Step.requireAnalyzed context callee) := by
  unfold Step.requireAnalyzed
  split
  next unknown => exact .fail (answers.receiver unknown)
  next => exact .pure fun _ holds => holds

theorem applyArguments (pos : Int) (receiver : Option Ref) (values : List (Option Ref))
    (apart : ∀ ref, some ref ∈ values → invariant.Apart temporaries ref) (index : Nat)
    (result : Option Ref) :
    Ensures invariant.Admits (invariant.Holds opened temporaries)
      (fun found frame => invariant.Holds opened temporaries frame ∧
        ∀ ref ∈ found, some ref ∈ values ∨ some ref = result)
      (Step.applyArguments context pos callee receiver index values result) := by
  induction values generalizing index result with
  | nil => exact .pure fun _ holds => ⟨holds, fun _ here => .inr here.symm⟩
  | cons value rest ih =>
      have later := ih fun ref member => apart ref (.tail _ member)
      -- What comes out of the rest comes out of the whole.
      have onward : ∀ result, Ensures invariant.Admits (invariant.Holds opened temporaries)
          (fun found frame => invariant.Holds opened temporaries frame ∧
            ∀ ref ∈ found, some ref ∈ value :: rest ∨ some ref = result)
          (Step.applyArguments context pos callee receiver (index + 1) rest result) := by
        intro result
        refine (later (index + 1) result).weaken (fun _ holds => holds) fun found _ holds => ?_
        exact ⟨holds.1, fun ref here => (holds.2 ref here).imp_left (.tail _)⟩
      unfold Step.applyArguments
      cases at? : callee.paramAt? index with
      | none => exact .pure fun _ holds => ⟨holds, fun _ here => .inr here.symm⟩
      | some param =>
          have member := Method.mem_params_of_paramAt? at?
          dsimp only
          cases said : (context.summaries.of callee).param callee.unit param.name with
          | error error => exact .fail (answers.missing param member error said)
          | ok effect =>
              cases effect with
              | unknown => exact .fail (answers.unknown param member said)
              | passForward =>
                  refine (onward (result.or value)).weaken (fun _ holds => holds)
                    fun found _ holds => ⟨holds.1, fun ref here => ?_⟩
                  rcases holds.2 ref here with listed | same
                  · exact .inl listed
                  · cases result with
                    | none => exact .inl (same ▸ .head _)
                    | some other => exact .inr same
              | doesNotChange => exact onward result
              | doesChange =>
                  cases value with
                  | none => exact onward result
                  | some value =>
                      exact (invariant.capture opened temporaries pos receiver callee.unit
                        param.name value (apart value (.head _))).bind fun _ => onward result

theorem applyEffects (pos : Int) (receiver : Option Ref) (values : List (Option Ref))
    (apart : ∀ ref, some ref ∈ values → invariant.Apart temporaries ref) :
    Ensures invariant.Admits (invariant.Holds opened temporaries)
      (fun found frame => invariant.Holds opened temporaries frame ∧
        ∀ ref ∈ found, some ref ∈ values ∨ some ref = receiver)
      (Step.applyEffects context pos callee receiver values) := by
  unfold Step.applyEffects
  refine (invariant.applyArguments opened temporaries answers pos receiver values apart 0
    none).bind fun result => ?_
  have kept : ∀ frame, (invariant.Holds opened temporaries frame ∧
      ∀ ref ∈ result, some ref ∈ values ∨ some ref = none) →
      invariant.Holds opened temporaries frame ∧
        ∀ ref ∈ result, some ref ∈ values ∨ some ref = receiver := by
    intro frame holds
    exact ⟨holds.1, fun ref here => .inl ((holds.2 ref here).resolve_right (by simp))⟩
  cases (context.summaries.of callee).receiver with
  | doesChange =>
      intro frame holds
      exact ((invariant.taint opened temporaries pos receiver).bind fun _ =>
        .pure fun next ends => ⟨ends, (kept frame holds).2⟩) frame holds.1
  | passForward =>
      refine .pure fun frame holds => ⟨holds.1, fun ref here => ?_⟩
      cases result with
      | none => exact .inr here.symm
      | some other => exact (kept frame holds).2 ref here
  | doesNotChange => exact .pure kept
  | unknown => exact .pure kept

omit answers

/-! ## Nodes -/

mutual

/-- The evaluation of a node keeps the invariant. -/
theorem eval (temporaries : List Ref) (opened : List ScopeId) (scope : ScopeId)
    (within : scope ∈ opened) :
    (node : Node) → invariant.AnswersAll node.preorder →
    Ensures invariant.Admits (invariant.Holds opened temporaries)
      (invariant.HoldsApart opened temporaries) (Step.eval context scope node)
  | .absent, _ => by
      rw [Step.eval]
      exact .pure fun _ holds => ⟨holds, by simp⟩
  | .vacant, _ => by
      rw [Step.eval]
      exact .malformed
  | .block pos stmts, answers => by
      rw [Step.eval]
      refine (invariant.openChild opened temporaries scope).bind fun child => ?_
      refine (block temporaries (child :: opened) child (.head _) stmts
        (answers.mono (List.subset_cons_self _ _))).bind fun _ => ?_
      refine (invariant.close opened temporaries child).locate.bind fun _ => ?_
      exact .pure fun _ holds => ⟨holds, by simp⟩
  | .literal pos value isNil, _ => by
      rw [Step.eval]
      split
      · exact .pure fun _ holds => ⟨holds, by simp⟩
      · exact invariant.allocateApart opened temporaries ""
  | .reference target, _ => by
      rw [Step.eval]
      exact (invariant.reference opened temporaries scope target).locate
  | .new pos type maker args, answers => by
      rw [Step.eval]
      have inside := answers.mono (List.subset_cons_self _ _)
      refine Ensures.locate ((invariant.allocate opened temporaries type).bind fun made => ?_)
      refine .assuming fun fresh => ?_
      split
      next plain =>
        refine (attach (made :: temporaries) opened scope within pos made 0 args (.head _)
          inside).bind fun _ => ?_
        refine .pure fun _ holds => ⟨invariant.forget holds, fun ref here => ?_⟩
        cases here
        exact fresh
      next named =>
        refine (invariant.method opened (made :: temporaries) _).bind fun callee => ?_
        refine .assuming fun known => ?_
        have callable := answers _ (.head _) _ callee
          (by simp only [Node.callee, named, ↓reduceIte]) known
        refine (invariant.requireAnalyzed opened (made :: temporaries) callable).bind fun _ => ?_
        refine (evalNamed (made :: temporaries) opened scope within args inside).bind
          fun values => ?_
        refine .assuming fun apart => ?_
        refine (invariant.applyEffects opened (made :: temporaries) callable pos (some made) values
          apart).bind fun result => ?_
        refine .pure fun _ holds => ⟨invariant.forget holds.1, fun ref here => ?_⟩
        cases result with
        | none =>
            cases here
            exact fresh
        | some other =>
            rcases holds.2 ref here with listed | same
            · exact invariant.apart_forget (apart ref listed)
            · cases same
              exact fresh
  | .localVar pos type declarators, answers => by
      rw [Step.eval]
      refine Ensures.locate ((declareAll temporaries opened scope within type declarators
        (answers.mono (List.subset_cons_self _ _))).bind fun _ => ?_)
      exact .pure fun _ holds => ⟨holds, by simp⟩
  | .assign pos target value, answers => by
      rw [Step.eval]
      refine Ensures.locate ((eval temporaries opened scope within value (answers.mono ?_)).bind
        fun value => .assuming fun apart => ?_)
      · intro node member
        exact .tail _ (List.mem_append_right _ member)
      · cases target with
        | none => exact .malformed
        | some target =>
            refine (invariant.assign opened temporaries apart scope pos target).bind fun _ => ?_
            exact .pure fun _ holds => ⟨holds, by simp⟩
  | .ret pos values, answers => by
      rw [Step.eval]
      refine (returnAll temporaries opened scope within values
        (answers.mono (List.subset_cons_self _ _))).bind fun _ => ?_
      exact .pure fun _ holds => ⟨holds, by simp⟩
  | .call pos qualifier member args, answers => by
      rw [Step.eval]
      refine Ensures.locate ((Ensures.ofRegistry invariant.registry).bind fun type => ?_)
      refine .assuming fun typed => ?_
      refine (invariant.method opened temporaries ⟨type, member⟩).bind fun callee => ?_
      refine .assuming fun known => ?_
      have callable := answers _ (.head _) ⟨type, member⟩ callee
        (by simp only [Node.callee, typed]) known
      refine (invariant.callReceiver opened temporaries scope qualifier).bind fun receiver => ?_
      refine .assuming fun held => ?_
      refine (invariant.requireAnalyzed opened temporaries callable).bind fun _ => ?_
      refine (evalAll temporaries opened scope within args
        (answers.mono (List.subset_cons_self _ _))).bind fun values => .assuming fun apart => ?_
      refine (invariant.applyEffects opened temporaries callable pos receiver values apart).bind
        fun result => ?_
      cases result with
      | some result =>
          refine .pure fun _ holds => ⟨holds.1, fun ref here => ?_⟩
          rcases holds.2 ref here with listed | same
          · exact apart ref listed
          · exact held ref same.symm
      | none =>
          dsimp only
          split
          · exact .pure fun _ holds => ⟨holds.1, by simp⟩
          · exact (invariant.allocateApart opened temporaries _).start fun _ holds => holds.1
  | .operation pos op operands, answers => by
      rw [Step.eval]
      refine (evalAll temporaries opened scope within operands
        (answers.mono (List.subset_cons_self _ _))).bind fun _ => ?_
      exact (invariant.allocateApart opened temporaries _).start fun _ holds => holds.1
  | .unsupported pos construct, _ => by
      rw [Step.eval]
      refine (invariant.skip opened temporaries pos construct).bind fun _ => ?_
      exact .pure fun _ holds => ⟨holds, by simp⟩
  | .alien pos kind, _ => by
      rw [Step.eval]
      refine (invariant.skip opened temporaries pos kind.name).bind fun _ => ?_
      exact .pure fun _ holds => ⟨holds, by simp⟩
  termination_by structural node => node

theorem block (temporaries : List Ref) (opened : List ScopeId) (scope : ScopeId)
    (within : scope ∈ opened) :
    (stmts : List Node) → invariant.AnswersAll (Node.preorderAll stmts) →
    Ensures invariant.Admits (invariant.Holds opened temporaries)
      (fun _ => invariant.Holds opened temporaries) (Step.block context scope stmts)
  | [], _ => by
      rw [Step.block]
      exact .pure fun _ holds => holds
  | stmt :: rest, answers => by
      rw [Step.block]
      refine (eval temporaries opened scope within stmt
        (answers.mono (List.subset_append_left _ _))).bind fun _ => ?_
      refine ((invariant.sweepAfter opened temporaries stmt).start
        fun _ holds => holds.1).bind fun _ => ?_
      exact block temporaries opened scope within rest
        (answers.mono (List.subset_append_right _ _))
  termination_by structural stmts => stmts

theorem evalAll (temporaries : List Ref) (opened : List ScopeId) (scope : ScopeId)
    (within : scope ∈ opened) :
    (nodes : List Node) → invariant.AnswersAll (Node.preorderAll nodes) →
    Ensures invariant.Admits (invariant.Holds opened temporaries)
      (fun values frame => invariant.Holds opened temporaries frame ∧
        ∀ ref, some ref ∈ values → invariant.Apart temporaries ref)
      (Step.evalAll context scope nodes)
  | [], _ => by
      rw [Step.evalAll]
      exact .pure fun _ holds => ⟨holds, by simp⟩
  | node :: rest, answers => by
      rw [Step.evalAll]
      refine (eval temporaries opened scope within node
        (answers.mono (List.subset_append_left _ _))).bind fun value => .assuming fun apart => ?_
      refine (evalAll temporaries opened scope within rest
        (answers.mono (List.subset_append_right _ _))).bind fun values => ?_
      exact .pure fun _ holds => ⟨holds.1, invariant.apart_cons apart holds.2⟩
  termination_by structural nodes => nodes

theorem evalNamed (temporaries : List Ref) (opened : List ScopeId) (scope : ScopeId)
    (within : scope ∈ opened) :
    (args : List (String × Node)) → invariant.AnswersAll (Node.preorderNamed args) →
    Ensures invariant.Admits (invariant.Holds opened temporaries)
      (fun values frame => invariant.Holds opened temporaries frame ∧
        ∀ ref, some ref ∈ values → invariant.Apart temporaries ref)
      (Step.evalNamed context scope args)
  | [], _ => by
      rw [Step.evalNamed]
      exact .pure fun _ holds => ⟨holds, by simp⟩
  | (name, node) :: rest, answers => by
      rw [Step.evalNamed]
      refine (eval temporaries opened scope within node
        (answers.mono (List.subset_append_left _ _))).bind fun value => .assuming fun apart => ?_
      refine (evalNamed temporaries opened scope within rest
        (answers.mono (List.subset_append_right _ _))).bind fun values => ?_
      exact .pure fun _ holds => ⟨holds.1, invariant.apart_cons apart holds.2⟩
  termination_by structural args => args

theorem attach (temporaries : List Ref) (opened : List ScopeId) (scope : ScopeId)
    (within : scope ∈ opened) (pos : Int) (owner : Ref) (index : Nat) :
    (args : List (String × Node)) → owner ∈ temporaries →
    invariant.AnswersAll (Node.preorderNamed args) →
    Ensures invariant.Admits (invariant.Holds opened temporaries)
      (fun _ => invariant.Holds opened temporaries)
      (Step.attach context scope pos owner index args)
  | [], _, _ => by
      rw [Step.attach]
      exact .pure fun _ holds => holds
  | (name, node) :: rest, inHand, answers => by
      rw [Step.attach_cons]
      refine (eval temporaries opened scope within node
        (answers.mono (List.subset_append_left _ _))).bind fun value => .assuming fun apart => ?_
      refine Ensures.bind ?_ fun _ => attach temporaries opened scope within pos owner (index + 1)
        rest inHand (answers.mono (List.subset_append_right _ _))
      cases value with
      | none => exact .pure fun _ holds => holds
      | some value =>
          exact invariant.construct opened temporaries pos owner _ value inHand (apart value rfl)
  termination_by structural args => args

theorem declareAll (temporaries : List Ref) (opened : List ScopeId) (scope : ScopeId)
    (within : scope ∈ opened) (type : String) :
    (declarators : List (String × Node)) →
    invariant.AnswersAll (Node.preorderNamed declarators) →
    Ensures invariant.Admits (invariant.Holds opened temporaries)
      (fun _ => invariant.Holds opened temporaries)
      (Step.declareAll context scope type declarators)
  | [], _ => by
      rw [Step.declareAll]
      exact .pure fun _ holds => holds
  | (name, node) :: rest, answers => by
      rw [Step.declareAll]
      refine (eval temporaries opened scope within node
        (answers.mono (List.subset_append_left _ _))).bind fun value => .assuming fun apart => ?_
      refine (invariant.declare opened temporaries scope name type value within apart).bind
        fun _ => ?_
      exact declareAll temporaries opened scope within type rest
        (answers.mono (List.subset_append_right _ _))
  termination_by structural declarators => declarators

theorem returnAll (temporaries : List Ref) (opened : List ScopeId) (scope : ScopeId)
    (within : scope ∈ opened) :
    (values : List Node) → invariant.AnswersAll (Node.preorderAll values) →
    Ensures invariant.Admits (invariant.Holds opened temporaries)
      (fun _ => invariant.Holds opened temporaries) (Step.returnAll context scope values)
  | [], _ => by
      rw [Step.returnAll]
      exact .pure fun _ holds => holds
  | node :: rest, answers => by
      rw [Step.returnAll]
      refine (eval temporaries opened scope within node
        (answers.mono (List.subset_append_left _ _))).bind fun value => ?_
      refine ((invariant.returned opened temporaries value).start
        fun _ holds => holds.1).bind fun _ => ?_
      exact returnAll temporaries opened scope within rest
        (answers.mono (List.subset_append_right _ _))
  termination_by structural values => values

end

/-- The evaluation of a body keeps the invariant, and its own scope is open at the
end. -/
theorem body (root : ScopeId) (answers : invariant.AnswersAll context.method.decl.nodes) :
    Ensures invariant.Admits (invariant.Holds [root] [])
      (fun inner => invariant.Holds [inner, root] []) (Eval.body context root) := by
  refine (invariant.openChild [root] [] root).bind fun inner => ?_
  unfold MethodDecl.nodes at answers
  cases declared : context.method.decl.body with
  | none => exact .pure fun _ holds => holds
  | some block =>
      rw [declared] at answers
      refine (invariant.block [] [inner, root] inner (.head _) block.stmts
        (answers.mono (List.subset_cons_self _ _))).bind fun _ => ?_
      exact .pure fun _ holds => holds

end Invariant

/-! ## Units -/

theorem leave_eq_error {context : Context} {root inner : ScopeId} {frame last : Frame}
    {failure : Failure} (left : leave context root inner frame = .error failure last) :
    ∃ errors, failure = .plain (.leave errors) := by
  unfold leave at left
  dsimp only at left
  split at left
  next => cases left
  next =>
    cases left
    exact ⟨_, rfl⟩

/-- The ways in which the evaluation of a unit fails. -/
inductive Fails (context : Context) (lastId : Nat) : Failure → Prop
  /-- The class of the unit is not known. -/
  | unknown (error : Registry.Error) : Fails context lastId (.plain (.registry error))
  | entry {error : Memory.Error} {memory : Memory}
      (refused : enter context.rules context.method (.ofHeap (.startingAfter lastId)) =
        .error error memory) : Fails context lastId (.plain (.memory error))
  | body {entry : Entry} {memory : Memory} {failure : Failure} {frame : Frame}
      (entered : enter context.rules context.method (.ofHeap (.startingAfter lastId)) =
        .ok entry memory)
      (broken : body context entry.root (entry.frame memory) = .error failure frame) :
      Fails context lastId failure
  | leave {entry : Entry} {memory : Memory} {inner : ScopeId} {frame last : Frame}
      {errors : List Memory.Error}
      (entered : enter context.rules context.method (.ofHeap (.startingAfter lastId)) =
        .ok entry memory)
      (finished : Eval.body context entry.root (entry.frame memory) = .ok inner frame)
      (refused : leave context entry.root inner frame = .error (.plain (.leave errors)) last) :
      Fails context lastId (.plain (.leave errors))

theorem run_eq_error {context : Context} {lastId : Nat} {failure : Failure}
    (failed : (run context lastId).result = .error failure) : Fails context lastId failure := by
  unfold run at failed
  split at failed
  next error missing =>
    cases failed
    exact .unknown error
  next =>
    split at failed
    next error memory refused =>
      cases failed
      exact .entry refused
    next entry memory entered =>
      cases finished : body context entry.root (entry.frame memory) with
      | error other frame =>
          rw [evaluate, bind_of_error finished] at failed
          cases failed
          exact .body entered finished
      | ok inner frame =>
          cases left : leave context entry.root inner frame with
          | ok _ last =>
              rw [evaluate_of_ok finished left] at failed
              cases failed
          | error other last =>
              rw [evaluate_of_error finished left] at failed
              cases failed
              obtain ⟨errors, rfl⟩ := leave_eq_error left
              exact .leave entered finished left

end Eval

end Custody
