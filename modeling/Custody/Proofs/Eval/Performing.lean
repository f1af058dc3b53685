import Custody.Proofs.Eval.Knowledge
import Custody.Proofs.Eval.Leaving
import Custody.Proofs.Eval.Readiness
import Custody.Proofs.Eval.Visits

/-!
# Evaluations at a place

An expression is evaluated in every frame that is ready for it, whatever is in hand, and its
object is in hand then.  A statement is evaluated with empty hands, and leaves them empty.  So
much is due to the memory alone: it fails for no other causes than those for which the registry
and the summaries have no answer.

Which of these causes are admitted is left open.  A node is backed at a place if whatever the
registry and the summaries are asked there is answered, or may go without an answer.
-/

namespace Custody.Eval

open Code Heap

/-! ## What is asked for -/

/-- The summary of a unit says what a call of it does, or may leave that open. -/
structure Context.Tells (context : Context) (admits : Cause → Prop) (callee : Method) : Prop where
  analyzed : (context.summaries.of callee).receiver = .unknown → admits (.notAnalyzed callee.unit)
  listed : ∀ param ∈ callee.params, ∀ error,
    (context.summaries.of callee).param callee.unit param.name = .error error →
      admits (.summary error)
  known : ∀ param ∈ callee.params,
    (context.summaries.of callee).param callee.unit param.name = .ok .unknown →
      admits (.unknownEffect param.name callee.unit)

/-- A unit is found and its summary tells about it, or may be missing. -/
def Context.Provides (context : Context) (admits : Cause → Prop) (unit : UnitId) : Prop :=
  ∀ before, Yields admits before (fun callee frame => before frame ∧ context.Tells admits callee)
    (Step.method context unit)

/-- What a node asks at a place has an answer, or may go without. -/
def Context.Backs (context : Context) (admits : Cause → Prop) (place : Place) : Node → Prop
  | .reference target => ∀ loose hand, Yields admits (place.Ready loose hand)
      (fun found => place.Ready loose (found.toList ++ hand))
      (Step.reference context place.scope target)
  | .new _ type maker args =>
      (maker ≠ "" → context.Provides admits ⟨type, constructorMember maker⟩) ∧
        ∀ arg ∈ args, arg.1.toList.head? ≠ some '$'
  | .call _ qualifier member _ =>
      (∀ error, context.registry.qualifierType context.method qualifier = .error error →
        admits (.registry error)) ∧
      (∀ type, context.registry.qualifierType context.method qualifier = .ok type →
        context.Provides admits ⟨type, member⟩) ∧
      ∀ loose hand, Yields admits (place.Ready loose hand)
        (fun found => place.Ready loose (found.toList ++ hand))
        (Step.callReceiver context place.scope qualifier)
  | .assign pos (some target) _ => ∀ value : Option Ref,
      Yields admits (place.Ready [] (value.toList ++ [])) (fun _ => place.Ready [] [])
        (Step.assign context place.scope pos target value)
  | _ => True

/-- A node is backed at all places with some variables, in a unit with some variables. -/
def Context.Backing (context : Context) (admits : Cause → Prop) (table env : Environment)
    (node : Node) : Prop :=
  ∀ place : Place, place.table = table → place.env = env → context.Backs admits place node

variable {admits : Cause → Prop} {registry : Registry} {summaries : Summaries}
variable {method callee : Method}

section Places

variable {place : Place} {loose hand : List Ref}

/-! ## Calls -/

namespace Place.Ready

theorem requireAnalyzed
    (tells : (Context.counting registry summaries method).Tells admits callee) :
    Yields admits (place.Ready loose hand) (fun _ => place.Ready loose hand)
      (Step.requireAnalyzed (.counting registry summaries method) callee) := by
  unfold Step.requireAnalyzed
  split
  next unknown => exact .fail (tells.analyzed unknown)
  next => exact .pure fun _ ready => ready

theorem applyArguments
    (tells : (Context.counting registry summaries method).Tells admits callee) (pos : Int)
    (receiver : Option Ref) (values : List (Option Ref)) (index : Nat) (result : Option Ref) :
    Yields admits
      (place.Ready loose
        (values.flatMap Option.toList ++ (result.toList ++ (receiver.toList ++ hand))))
      (fun found => place.Ready loose (found.toList ++ (receiver.toList ++ hand)))
      (Step.applyArguments (.counting registry summaries method) pos callee receiver index values
        result) := by
  induction values generalizing index result with
  | nil => exact .pure fun _ ready => ready
  | cons value rest ih =>
      -- The object of an argument may be let out of sight.
      have dropped : ∀ (result : Option Ref) frame,
          place.Ready loose ((value :: rest).flatMap Option.toList ++
            (result.toList ++ (receiver.toList ++ hand))) frame →
          place.Ready loose (rest.flatMap Option.toList ++
            (result.toList ++ (receiver.toList ++ hand))) frame := by
        intro result frame ready
        rw [List.flatMap_cons, List.append_assoc] at ready
        exact ready.right
      unfold Step.applyArguments
      cases at? : callee.paramAt? index with
      | none => exact .pure fun _ ready => ready.right
      | some param =>
          dsimp only
          have member := Method.mem_params_of_paramAt? at?
          cases said : ((Context.counting registry summaries method).summaries.of callee).param
              callee.unit param.name with
          | error error => exact .fail (tells.listed param member error said)
          | ok effect =>
              cases effect with
              | unknown => exact .fail (tells.known param member said)
              | doesNotChange =>
                  exact (ih (index + 1) result).weaken (dropped result) fun _ _ ready => ready
              | passForward =>
                  refine (ih (index + 1) (result.or value)).weaken ?_ fun _ _ ready => ready
                  intro frame ready
                  cases result with
                  | some object => exact dropped (some object) frame ready
                  | none =>
                      cases value with
                      | none => exact ready
                      | some object => exact ready.fewer List.perm_middle.subperm
              | doesChange =>
                  cases value with
                  | none => exact ih (index + 1) result
                  | some object =>
                      refine Yields.bind ?_ fun _ => ih (index + 1) result
                      refine .of_ok fun frame ready => ?_
                      have listed : ∀ ref ∈ receiver, ref ∈ loose ++ (rest.flatMap Option.toList ++
                          (result.toList ++ (receiver.toList ++ hand))) := by
                        rintro ref ⟨⟩
                        simp
                      obtain ⟨next, done, after⟩ := capture ready pos callee.unit param.name listed
                      exact ⟨(), next, done, after⟩

theorem applyEffects (tells : (Context.counting registry summaries method).Tells admits callee)
    (pos : Int) (receiver : Option Ref) (values : List (Option Ref)) :
    Yields admits (place.Ready loose (values.flatMap Option.toList ++ (receiver.toList ++ hand)))
      (fun found => place.Ready loose ((found.or receiver).toList ++ hand))
      (Step.applyEffects (.counting registry summaries method) pos callee receiver values) := by
  unfold Step.applyEffects
  refine (applyArguments tells pos receiver values 0 none).bind fun result => ?_
  have either : ∀ frame, place.Ready loose (result.toList ++ (receiver.toList ++ hand)) frame →
      place.Ready loose ((result.or receiver).toList ++ hand) frame := by
    intro frame ready
    cases result with
    | none => exact ready
    | some object =>
        refine ready.fewer (List.Sublist.subperm ?_)
        exact (List.sublist_append_right receiver.toList hand).cons_cons object
  cases ((Context.counting registry summaries method).summaries.of callee).receiver with
  | doesChange =>
      refine .of_ok fun frame ready => ⟨result, frame.taint pos receiver, ?_, ?_⟩
      · exact bind_of_ok (Step.taint_eq pos receiver frame)
      · exact either _ (ready.remarked (.taint frame pos receiver))
  | passForward =>
      refine .pure fun frame ready => ?_
      have same : (result.or receiver).or receiver = result.or receiver := by
        cases result with
        | none => cases receiver <;> rfl
        | some object => rfl
      rw [same]
      exact either frame ready
  | doesNotChange => exact .pure either
  | unknown => exact .pure either

end Place.Ready

/-! ## Expressions -/

/-- An expression is evaluated whatever is in hand, and its object is in hand then. -/
def Computes (admits : Cause → Prop) (context : Context) (place : Place) (node : Node) : Prop :=
  ∀ loose hand, Yields admits (place.Ready loose hand)
    (fun found => place.Ready loose (found.toList ++ hand)) (Step.eval context place.scope node)

namespace Computes

theorem evalAll {nodes : List Node}
    (each : ∀ node ∈ nodes, Computes admits (.counting registry summaries method) place node)
    (loose hand : List Ref) :
    Yields admits (place.Ready loose hand)
      (fun values => place.Ready loose (values.flatMap Option.toList ++ hand))
      (Step.evalAll (.counting registry summaries method) place.scope nodes) := by
  induction nodes generalizing hand with
  | nil =>
      rw [Step.evalAll]
      exact .pure fun _ ready => ready
  | cons node rest ih =>
      rw [Step.evalAll]
      refine (each node (.head _) loose hand).bind fun value => ?_
      have later := ih fun other member => each other (.tail _ member)
      refine (later (value.toList ++ hand)).bind fun values => .pure fun frame ready => ?_
      refine ready.fewer (List.Perm.subperm ?_)
      rw [List.flatMap_cons, ← List.append_assoc]
      exact List.perm_append_comm.append_right hand

theorem evalNamed {args : List (String × Node)}
    (each : ∀ arg ∈ args, Computes admits (.counting registry summaries method) place arg.2)
    (loose hand : List Ref) :
    Yields admits (place.Ready loose hand)
      (fun values => place.Ready loose (values.flatMap Option.toList ++ hand))
      (Step.evalNamed (.counting registry summaries method) place.scope args) := by
  rw [Step.evalNamed_eq]
  refine evalAll (fun node member => ?_) loose hand
  obtain ⟨arg, listed, rfl⟩ := List.mem_map.1 member
  exact each arg listed

/-- Arguments are attached to an object that stays loose. -/
theorem attach {args : List (String × Node)}
    (each : ∀ arg ∈ args, Computes admits (.counting registry summaries method) place arg.2)
    (named : ∀ arg ∈ args, arg.1.toList.head? ≠ some '$') (loose hand : List Ref) (pos : Int)
    (owner : Ref) (index : Nat) :
    Yields admits (place.Ready (owner :: loose) hand) (fun _ => place.Ready (owner :: loose) hand)
      (Step.attach (.counting registry summaries method) place.scope pos owner index args) := by
  induction args generalizing index with
  | nil =>
      rw [Step.attach]
      exact .pure fun _ ready => ready
  | cons arg rest ih =>
      rw [Step.attach_cons]
      refine (each arg (.head _) (owner :: loose) hand).bind fun value => Yields.bind ?_ fun _ =>
        ih (fun other member => each other (.tail _ member))
          (fun other member => named other (.tail _ member)) (index + 1)
      cases value with
      | none => exact .pure fun _ ready => ready
      | some value =>
          refine .of_ok fun frame ready => ?_
          have label : Uncaptured (if arg.1 = "" then "$" ++ toString index else arg.1) := by
            split
            · exact uncaptured_numbered index
            · exact uncaptured_of_head (named arg (.head _))
          obtain ⟨next, done, after⟩ := Place.Ready.construct ready pos label
          exact ⟨(), next, done, after⟩

end Computes

theorem Place.Ready.allocated (type : String) :
    Yields admits (place.Ready loose hand) (fun found => place.Ready loose (found.toList ++ hand))
      (some <$> Step.onHeap (Heap.allocate type false)) :=
  (Place.Ready.allocate place loose hand type).map fun _ _ made => made.1

theorem Place.Ready.skip (pos : Int) (construct : String) :
    Yields admits (place.Ready loose hand) (fun _ => place.Ready loose hand)
      (Step.skip (.counting registry summaries method) pos construct) := by
  refine .of_ok fun frame ready => ?_
  exact ⟨(), _, rfl, ready.remarked ⟨rfl, rfl, rfl, rfl, rfl, by simp⟩⟩

/-- An expression that is backed at a place is evaluated there. -/
theorem computes {node : Node} (expression : node.IsExpression)
    (backs : Node.Throughout
      ((Context.counting registry summaries method).Backing admits place.table) place.env node) :
    Computes admits (.counting registry summaries method) place node := by
  induction expression with
  | absent =>
      intro loose hand
      rw [Step.eval]
      exact .pure fun _ ready => ready
  | literal pos value isNil =>
      intro loose hand
      rw [Step.eval]
      split
      · exact .pure fun _ ready => ready
      · exact Place.Ready.allocated ""
  | reference target =>
      intro loose hand
      rw [Step.eval]
      exact (backs.here place rfl rfl loose hand).locate
  | @new pos type maker args _ ih =>
      intro loose hand
      have each : ∀ arg ∈ args, Computes admits (.counting registry summaries method) place arg.2 :=
        fun arg member => ih arg member (backs.under (.element member))
      obtain ⟨provides, named⟩ := backs.here place rfl rfl
      rw [Step.eval]
      refine ((Place.Ready.allocate place loose hand type).bind fun made => ?_).locate
      split
      · refine ((Computes.attach each named loose hand pos made 0).weaken ?_ fun _ _ ready => ready)
          |>.bind fun _ => .pure fun _ ready => ready.forget
        intro frame ready
        exact { ready.1 with inHand := ready.1.inHand.remember ready.2 }
      next maker =>
        refine (provides maker _).bind fun callee => .assuming fun tells => ?_
        refine ((Place.Ready.requireAnalyzed tells).weaken (fun _ ready => ready.1)
          fun _ _ ready => ready).bind fun _ => ?_
        refine (Computes.evalNamed each loose (made :: hand)).bind fun values => ?_
        refine (Place.Ready.applyEffects tells pos (some made) values).bind fun result => ?_
        exact .pure fun _ ready => ready
  | @call pos qualifier member args _ ih =>
      intro loose hand
      have each : ∀ arg ∈ args, Computes admits (.counting registry summaries method) place arg :=
        fun arg member => ih arg member (backs.under (.argument member))
      obtain ⟨excused, provides, receives⟩ := backs.here place rfl rfl
      rw [Step.eval]
      refine ((Yields.ofRegistry excused).bind fun type => .assuming fun typed => ?_).locate
      refine (provides type typed _).bind fun callee => .assuming fun tells => ?_
      refine (receives loose hand).bind fun receiver => ?_
      refine (Place.Ready.requireAnalyzed tells).bind fun _ => ?_
      refine (Computes.evalAll each loose (receiver.toList ++ hand)).bind fun values => ?_
      refine (Place.Ready.applyEffects tells pos receiver values).bind fun result => ?_
      cases result with
      | some result => exact .pure fun _ ready => ready
      | none =>
          dsimp only
          split
          · exact .pure fun _ ready => ready.right
          · exact (Place.Ready.allocated _).weaken (fun _ ready => ready.right)
              fun _ _ ready => ready
  | @operation pos op operands _ ih =>
      intro loose hand
      have each : ∀ operand ∈ operands,
          Computes admits (.counting registry summaries method) place operand :=
        fun operand member => ih operand member (backs.under (.operand member))
      rw [Step.eval]
      refine (Computes.evalAll each loose hand).bind fun values => ?_
      exact (Place.Ready.allocated "").weaken (fun _ ready => ready.right) fun _ _ ready => ready
  | unsupported pos construct =>
      intro loose hand
      rw [Step.eval]
      exact (Place.Ready.skip pos construct).bind fun _ => .pure fun _ ready => ready

/-! ## Statements -/

variable {frame next : Frame}

/-- The place after some declarations. -/
def Place.declaring (place : Place) (entries : Environment) (known : entries ⊆ place.table) :
    Place :=
  { place with
    env := place.env ++ entries
    within := List.append_subset.2 ⟨place.within, known⟩ }

/-- The place in a scope inside. -/
def Place.inside (place : Place) (child : ScopeId) : Place :=
  { place with
    scope := child
    opened := child :: place.opened
    member := .head _ }

namespace Place.Ready

/-- What was bound is bound while scopes are opened and closed inside. -/
theorem advance (ready : place.Ready loose hand frame)
    (sound : next.memory.Sound place.held place.opened)
    (spare : ∀ owner callee param number, next.captures < number →
      next.heap.field? owner (Step.captureField callee param number) = none)
    (sink : next.sink ∈ place.held)
    (advances : Memory.Advances place.table frame.memory next.memory) :
    place.Ready [] [] next where
  sound := sound
  inHand := .nil _ _
  spare := spare
  sink := sink
  isOpen := fun scope member =>
    advances.isOpen scope (ready.sound.within.inside scope member) (ready.isOpen scope member)
  binds := fun entry member => (ready.binds entry member).advances ready.listed advances
  listed := advances.listed ready.listed
  labels := fun _ member => (advances.labels _ member).elim (fun earlier => ready.labels earlier) id

/-- Objects that are only counted and released get no fields. -/
theorem spare_of_shifts (ready : place.Ready loose hand frame) {memory : Memory}
    {object : Option Ref} (shifts : frame.memory.Shifts memory object) (owner : Ref)
    (unit : UnitId) (param : String) (number : Nat) (later : frame.captures < number) :
    memory.heap.field? owner (Step.captureField unit param number) = none := by
  cases found : memory.heap.field? owner (Step.captureField unit param number) with
  | none => rfl
  | some occupant =>
      have before := shifts.decays.thins.field? found
      exact before.symm.trans (ready.spare owner unit param number later)

theorem shifts (ready : place.Ready loose hand frame) {memory : Memory} {object : Option Ref}
    (sound : memory.Sound place.held place.opened) (shifts : frame.memory.Shifts memory object)
    (advances : Memory.Advances place.table frame.memory memory) :
    place.Ready [] [] { frame with memory } :=
  ready.advance sound (ready.spare_of_shifts shifts) ready.sink advances

/-- A variable can be declared with an object in hand. -/
theorem declare {name type : String} (known : (name, type) ∈ place.table) (object : Option Ref) :
    Yields admits (place.Ready [] (object.toList ++ [])) (fun _ => place.Ready [] [])
      (Step.onMemory (Memory.declare .counting place.scope name type object)) := by
  refine .of_ok fun frame ready => ?_
  rcases ready.sound.owned.declare place.scope name type object with
    ⟨_, _, _, closed | gone⟩ | ⟨binding, memory, done, _⟩
  · rw [ready.isOpen _ place.member] at closed
    cases closed
  · rw [ready.available] at gone
    cases gone
  · have kept := ready.sound.declare place.member name type object
    rw [done] at kept
    refine ⟨binding, _, ?_, ready.shifts kept.1 kept.2 (.declare known done)⟩
    simp only [Step.onMemory, done]

/-- A variable that is bound can be rebound to an object in hand. -/
theorem rebind {name : String} {binding : BindingId} (object : Option Ref)
    (ready : place.Ready [] (object.toList ++ []) frame)
    (found : frame.memory.lookup? place.scope name = some binding) :
    ∃ next, Step.onMemory (Memory.rebind .counting binding object) frame = .ok () next ∧
      place.Ready [] [] next := by
  rcases ready.sound.owned.rebind (ready.listed.lt_of_lookup? found) object with
    ⟨_, _, gone⟩ | ⟨heap, _, done, _⟩
  · rw [ready.available] at gone
    cases gone
  · have kept := ready.sound.rebind found object
    rw [done] at kept
    refine ⟨_, ?_, ready.shifts kept.1 kept.2 (.rebind done)⟩
    simp only [Step.onMemory, done]

theorem sweepAfter (stmt : Node) :
    Yields admits (place.Ready [] []) (fun _ => place.Ready [] [])
      (Step.sweepAfter (.counting registry summaries method) stmt) := by
  refine .of_ok fun frame ready => ?_
  obtain ⟨heap, swept, sound, shifts⟩ := ready.sound.sweep
  have done : (Context.counting registry summaries method).rules.sweep frame.heap = .ok () heap :=
    swept
  refine ⟨(), frame.withHeap heap, ?_, ready.shifts sound shifts (.withHeap _ heap)⟩
  simp only [Step.sweepAfter, Step.onHeap_of_ok done]

/-- What has been declared is bound. -/
theorem declaring (ready : place.Ready loose hand frame) {entries : Environment}
    (known : entries ⊆ place.table)
    (binds : ∀ entry ∈ entries, frame.memory.Binds place.scope entry.1) :
    (place.declaring entries known).Ready loose hand frame :=
  { ready with
    binds := fun entry member => (List.mem_append.1 member).elim (ready.binds entry) (binds entry) }

theorem undeclaring {entries : Environment} {known : entries ⊆ place.table}
    (ready : (place.declaring entries known).Ready loose hand frame) :
    place.Ready loose hand frame :=
  { ready with binds := fun entry member => ready.binds entry (List.mem_append_left _ member) }

/-- A scope can be opened inside. -/
theorem openChild :
    Yields admits (place.Ready [] []) (fun child => (place.inside child).Ready [] [])
      (Step.onMemory (Memory.openChild place.scope)) := by
  refine .of_ok fun frame ready => ⟨_, _, rfl, ?_⟩
  have opens : Memory.openChild place.scope frame.memory = .ok _ _ := rfl
  have advances : Memory.Advances place.table frame.memory _ :=
    .openScope frame.memory (place.scope :: (frame.memory.scope place.scope).enclosing)
  refine ⟨ready.sound.openScope _, .nil _ _, ready.spare, ready.sink, ?_, ?_,
    advances.listed ready.listed, fun _ member =>
      (advances.labels _ member).elim (fun earlier => ready.labels earlier) id⟩
  · intro scope member
    rcases List.mem_cons.1 member with rfl | member
    · simp [Memory.scope]
    · exact advances.isOpen scope (ready.sound.within.inside scope member)
        (ready.isOpen scope member)
  · exact fun entry member => (ready.binds entry member).openChild opens

end Place.Ready

/-- A scope is opened, and closed again when all is done inside. -/
theorem yields_inside {pos : Int} {within : ScopeId → Step Unit}
    (inside : ∀ child, Yields admits ((place.inside child).Ready [] [])
      (fun _ => (place.inside child).Ready [] []) (within child))
    (advancing : ∀ child, Advancing place.table (within child)) :
    Yields admits (place.Ready [] []) (fun _ => place.Ready [] []) (do
      let child ← Step.onMemory (Memory.openChild place.scope)
      within child
      Step.locate pos .block (Step.onMemory (Memory.close
        (Context.counting registry summaries method).rules child))
      return (none : Option Ref)) := by
  intro frame ready
  obtain ⟨child, started, opened, entered⟩ := Place.Ready.openChild.exists_ok ready
  have ends := inside child started entered
  cases evaluated : within child started with
  | error failure middle =>
      rw [evaluated] at ends
      rw [bind_of_ok opened, bind_of_error evaluated]
      exact ends
  | ok _ middle =>
      rw [evaluated] at ends
      obtain ⟨last, closes, sound, shifts⟩ := ends.sound.close
      have closes : Memory.close (Context.counting registry summaries method).rules child
          middle.memory = .ok () last := closes
      have closed : Step.locate pos .block (Step.onMemory (Memory.close
          (Context.counting registry summaries method).rules child)) middle =
          .ok () { middle with memory := last } := by
        simp only [Step.locate, Step.onMemory, closes]
      have whole : (do
          let child ← Step.onMemory (Memory.openChild place.scope)
          within child
          Step.locate pos .block (Step.onMemory (Memory.close
            (Context.counting registry summaries method).rules child))
          return (none : Option Ref)) frame = .ok none { middle with memory := last } := by
        rw [bind_of_ok opened, bind_of_ok evaluated, bind_of_ok closed]
        rfl
      have advances : Memory.Advances place.table frame.memory last :=
        Advancing.inside advancing whole
      rw [whole]
      exact ready.advance sound (ends.spare_of_shifts shifts) ends.sink advances

/-- A statement is evaluated with empty hands, and leaves them empty. -/
def Performs (admits : Cause → Prop) (context : Context) (place : Place) (node : Node) : Prop :=
  Yields admits (place.Ready [] []) (fun _ => place.Ready [] [])
    (Step.eval context place.scope node)

theorem Computes.performs {node : Node}
    (computes : Computes admits (.counting registry summaries method) place node) :
    Performs admits (.counting registry summaries method) place node :=
  (computes [] []).weaken (fun _ ready => ready) fun _ _ ready => ready.right

theorem Computes.returnAll {values : List Node}
    (each : ∀ value ∈ values, Computes admits (.counting registry summaries method) place value) :
    Yields admits (place.Ready [] []) (fun _ => place.Ready [] [])
      (Step.returnAll (.counting registry summaries method) place.scope values) := by
  induction values with
  | nil =>
      rw [Step.returnAll]
      exact .pure fun _ ready => ready
  | cons value rest ih =>
      rw [Step.returnAll]
      refine (each value (.head _)).performs.bind fun found => Yields.bind ?_ fun _ =>
        ih fun other member => each other (.tail _ member)
      cases found with
      | none => exact .pure fun _ ready => ready
      | some object =>
          refine .of_ok fun frame ready => ?_
          exact ⟨(), _, rfl, ready.remarked (.mapTracked frame
            (fun tracked => tracked.name_returned object)
            fun tracked => tracked.object_returned object)⟩

theorem Computes.declareAll {type : String} {declarators : List (String × Node)}
    (each : ∀ declarator ∈ declarators,
      Computes admits (.counting registry summaries method) place declarator.2)
    (known : ∀ declarator ∈ declarators, (declarator.1, type) ∈ place.table) :
    Yields admits (place.Ready [] []) (fun _ => place.Ready [] [])
      (Step.declareAll (.counting registry summaries method) place.scope type declarators) := by
  induction declarators with
  | nil =>
      rw [Step.declareAll]
      exact .pure fun _ ready => ready
  | cons declarator rest ih =>
      rw [Step.declareAll]
      refine (each declarator (.head _) [] []).bind fun value => ?_
      refine (Place.Ready.declare (known declarator (.head _)) value).bind fun _ => ?_
      exact ih (fun other member => each other (.tail _ member))
        fun other member => known other (.tail _ member)

/-- Statements are evaluated one after the other, each where those before it have
declared their variables. -/
theorem performs_block {stmts : List Node} {place : Place}
    (each : ∀ stmt ∈ stmts, ∀ later : Place, later.table = place.table →
      Node.Throughout ((Context.counting registry summaries method).Backing admits later.table)
        later.env stmt →
      stmt.preorder.flatMap Node.declared ⊆ later.table →
      Performs admits (.counting registry summaries method) later stmt)
    (backs : ∀ past stmt rest, stmts = past ++ stmt :: rest →
      Node.Throughout ((Context.counting registry summaries method).Backing admits place.table)
        (place.env ++ past.flatMap Node.declared) stmt)
    (declares : (Node.preorderAll stmts).flatMap Node.declared ⊆ place.table) :
    Yields admits (place.Ready [] []) (fun _ => place.Ready [] [])
      (Step.block (.counting registry summaries method) place.scope stmts) := by
  induction stmts generalizing place with
  | nil =>
      rw [Step.block]
      exact .pure fun _ ready => ready
  | cons stmt rest ih =>
      rw [Node.preorderAll, List.flatMap_append, List.append_subset] at declares
      have here := backs [] stmt rest rfl
      rw [List.flatMap_nil, List.append_nil] at here
      have known : stmt.declared ⊆ place.table :=
        List.Subset.trans (Node.declared_subset stmt) declares.1
      -- The statements after the first see what it declares.
      have later : Yields admits ((place.declaring stmt.declared known).Ready [] [])
          (fun _ => (place.declaring stmt.declared known).Ready [] [])
          (Step.block (.counting registry summaries method) place.scope rest) := by
        refine ih (fun other member => each other (.tail _ member)) ?_ declares.2
        intro past other last same
        have below := backs (stmt :: past) other last (by rw [same]; rfl)
        rw [List.flatMap_cons, ← List.append_assoc] at below
        exact below
      rw [Step.block]
      have first : Yields admits (place.Ready [] [])
          (fun _ => (place.declaring stmt.declared known).Ready [] [])
          (Step.eval (.counting registry summaries method) place.scope stmt) := by
        intro frame ready
        have ends := each stmt (.head _) place rfl here declares.1 frame ready
        cases done : Step.eval (.counting registry summaries method) place.scope stmt frame with
        | error failure next =>
            rw [done] at ends
            exact ends
        | ok result next =>
            rw [done] at ends
            exact ends.declaring known (binds_of_eval declares.1 ready.listed done)
      refine first.bind fun _ => (Place.Ready.sweepAfter stmt).bind fun _ => ?_
      exact later.weaken (fun _ ready => ready) fun _ _ ready => ready.undeclaring

/-- A statement that is backed at a place is evaluated there. -/
theorem performs {node : Node} (command : node.IsCommand) {place : Place}
    (backs : Node.Throughout
      ((Context.counting registry summaries method).Backing admits place.table) place.env node)
    (declares : node.preorder.flatMap Node.declared ⊆ place.table) :
    Performs admits (.counting registry summaries method) place node := by
  induction command generalizing place with
  | expression expression => exact (computes expression backs).performs
  | @block pos stmts _ ih =>
      rw [Node.preorder, List.flatMap_cons, List.append_subset] at declares
      unfold Performs
      rw [Step.eval]
      refine yields_inside (fun child => ?_) fun child => Advancing.block _ child stmts declares.2
      have inside : Yields admits ((place.inside child).Ready [] [])
          (fun _ => (place.inside child).Ready [] [])
          (Step.block (.counting registry summaries method) (place.inside child).scope stmts) := by
        refine performs_block (fun stmt member later _ backs declares =>
          ih stmt member backs declares) ?_ declares.2
        rintro past stmt rest rfl
        exact backs.under (.stmt past stmt rest)
      exact inside
  | @localVar pos type declarators each =>
      rw [Node.preorder, List.flatMap_cons, List.append_subset] at declares
      unfold Performs
      rw [Step.eval]
      refine Yields.locate ((Computes.declareAll ?_ ?_).bind fun _ => .pure fun _ ready => ready)
      · exact fun declarator member =>
          computes (each declarator member) (backs.under (.initial member))
      · exact fun declarator member => declares.1 (List.mem_map_of_mem member)
  | @assign pos target value computed =>
      have computes := computes computed (backs.under .value)
      unfold Performs
      rw [Step.eval]
      refine Yields.locate ((computes [] []).bind fun object => ?_)
      exact (backs.here place rfl rfl object).bind fun _ => .pure fun _ ready => ready
  | @ret pos values each =>
      unfold Performs
      rw [Step.eval]
      refine (Computes.returnAll fun value member =>
        computes (each value member) (backs.under (.result member))).bind fun _ => ?_
      exact .pure fun _ ready => ready
  | alien pos kind =>
      unfold Performs
      rw [Step.eval]
      exact (Place.Ready.skip pos kind.name).bind fun _ => .pure fun _ ready => ready

end Places

/-! ## Units -/

/-- The receiver of a method and all its variables, with their types. -/
def tableOf (method : Method) : Environment := (this, method.owner) :: method.decl.variables

theorem declared_subset_tableOf {block : Block} (declared : block ∈ method.decl.body) :
    block.node.preorder.flatMap Node.declared ⊆ tableOf method := by
  have nodes : method.decl.nodes = block.node.preorder := by
    simp only [MethodDecl.nodes, Option.mem_def.1 declared]
  rw [tableOf, MethodDecl.variables, nodes]
  exact fun entry member => .tail _ (List.mem_append_right _ member)

/-- The receiver is declared at every position of a body. -/
theorem throughout_receiver (method : Method) (node : Node) :
    Node.Throughout (fun env _ => (this, method.owner) ∈ env) (entryNames method) node := by
  refine .of_inside (fun declared inside => ?_) (.head _)
  cases inside with
  | stmt past stmt rest => exact List.mem_append_left _ declared
  | _ => exact declared

/-- The place at the entry of a method. -/
def Entry.place (entry : Entry) (method : Method) : Place where
  table := tableOf method
  env := entryNames method
  scope := entry.root
  opened := [entry.root]
  held := entry.params.map (·.object) ++ [entry.sink]
  member := .head _
  within := List.cons_subset_cons _ (List.subset_append_left _ _)

theorem ready_enter {lastId : Nat} {entry : Entry} {memory : Memory}
    (entered : enter .counting method (.ofHeap (.startingAfter lastId)) = .ok entry memory) :
    (entry.place method).Ready [] [] (entry.frame memory) := by
  obtain ⟨_, _, same, _, begun, _⟩ := exists_enter method lastId
  cases entered.symm.trans same
  obtain ⟨listed, labels, binds⟩ := binds_of_enter entered
  have sound := sound_enter entered
  refine ⟨sound, .nil _ _, ?_, ?_, ?_, binds, listed, ?_⟩
  · exact fun owner callee param number _ => begun.bare owner _
  · exact List.mem_append_right _ (.head _)
  · intro scope member
    rw [show scope = entry.root from List.mem_singleton.1 member]
    obtain ⟨place, _, binding, declared, _⟩ := binds _ (.head _)
    -- Only the root has bindings, and a scope that is closed has none.
    have root : place = entry.root := by
      by_contra apart
      rw [sound.within.outside place (by simpa using apart)] at declared
      cases declared
    rw [root] at declared
    cases closed : (memory.scope entry.root).closed with
    | false => exact closed
    | true =>
        rw [sound.within.emptied _ closed] at declared
        cases declared
  · exact List.Subset.trans labels (entry.place method).within

/-- The body of a unit that is backed comes to its end. -/
theorem yields_body (entry : Entry)
    (statements : ∀ block ∈ method.decl.body, ∀ stmt ∈ block.stmts, stmt.IsCommand)
    (backs : ∀ block ∈ method.decl.body, Node.Throughout
      ((Context.counting registry summaries method).Backing admits (tableOf method))
      (entryNames method) block.node) :
    Yields admits ((entry.place method).Ready [] [])
      (fun inner => ((entry.place method).inside inner).Ready [] [])
      (body (.counting registry summaries method) entry.root) := by
  have opens : Yields admits ((entry.place method).Ready [] [])
      (fun inner => ((entry.place method).inside inner).Ready [] [])
      (Step.onMemory (Memory.openChild (entry.place method).scope)) := Place.Ready.openChild
  unfold body
  refine opens.bind fun inner => ?_
  cases declared : (Context.counting registry summaries method).method.decl.body with
  | none => exact .pure fun _ ready => ready
  | some block =>
      have declared : block ∈ method.decl.body := declared
      have declares := declared_subset_tableOf declared
      rw [Block.node, Node.preorder, List.flatMap_cons, List.append_subset] at declares
      have performed : Yields admits (((entry.place method).inside inner).Ready [] [])
          (fun _ => ((entry.place method).inside inner).Ready [] [])
          (Step.block (.counting registry summaries method)
            ((entry.place method).inside inner).scope block.stmts) := by
        refine performs_block ?_ ?_ declares.2
        · intro stmt member later _ backs declares
          exact performs (statements block declared stmt member) backs declares
        · intro past stmt rest same
          have backs := backs block declared
          rw [Block.node, same] at backs
          exact backs.under (.stmt past stmt rest)
      exact performed.bind fun _ => .pure fun _ ready => ready

end Custody.Eval
