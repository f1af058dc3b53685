import Custody.Proofs.Eval.Completion

/-!
# States of an evaluation

Whatever the steps of an evaluation keep holds at every site that the evaluation comes
to, with the scopes that are open there and the objects that are in hand.

Between its sites an evaluation goes through other states: scopes have been opened, nodes
have been evaluated, and something has been done to objects.  `Reaches` collects them all.
In each of them the memory is sound, the scope is open, the receiver is bound there, and
names are bound under their declared types.
-/

namespace Custody.Eval

open Code

variable {context : Context}

/-- What a step ensures holds after it. -/
theorem Ensures.after {α : Type} {admits : Cause → Prop} {before : Frame → Prop}
    {after : α → Frame → Prop} {step : Step α} {frame next : Frame} {result : α}
    (ensures : Ensures admits before after step) (holds : before frame)
    (done : step frame = .ok result next) : after result next := by
  have ends := ensures frame holds
  rw [done] at ends
  exact ends

/-! ## What is kept up to a site -/

namespace Invariant

/-- What is kept holds at a site, with the scopes that are open there. -/
structure At (invariant : Invariant context) (opened : List ScopeId) (temporaries : List Ref)
    (site : Site) : Prop where
  holds : invariant.Holds opened temporaries site.frame
  member : site.scope ∈ opened
  answers : invariant.AnswersAll site.node.preorder

theorem At.enters {invariant : Invariant context} {opened : List ScopeId}
    {temporaries : List Ref} {site next : Site} (stands : invariant.At opened temporaries site)
    (enters : site.Enters context next) :
    ∃ inner hand, invariant.At inner hand next := by
  obtain ⟨holds, member, answers⟩ := stands
  cases enters with
  | @stmt scope child pos past rest stmt frame reached before =>
      simp only [Node.preorder, Node.preorderAll_append, Node.preorderAll] at answers
      obtain ⟨_, _, opens, before⟩ := bind_eq_ok before
      obtain ⟨_, _, evaluated, done⟩ := bind_eq_ok before
      cases done
      have start := (invariant.openChild opened temporaries scope).after holds opens
      have kept := (invariant.block temporaries (child :: opened) child (.head _) past
        (answers.mono fun node listed => by simp [listed])).after start evaluated
      exact ⟨_, _, kept, .head _, answers.mono fun node listed => by simp [listed]⟩
  | @element scope pos type name past rest node frame reached before =>
      simp only [Node.preorder, Node.preorderNamed_append, Node.preorderNamed] at answers
      obtain ⟨made, middle, allocated, attached⟩ := bind_eq_ok before
      have start := ((invariant.allocate opened temporaries type).after holds allocated).1
      have kept := (invariant.attach (made :: temporaries) opened scope member pos made 0 past
        (.head _) (answers.mono fun node listed => by simp [listed])).after start attached
      exact ⟨_, _, kept, member, answers.mono fun node listed => by simp [listed]⟩
  | @passed scope pos type maker name past rest node frame reached values named before =>
      have callee? := answers _ (.head _)
      simp only [Node.preorder, Node.preorderNamed_append, Node.preorderNamed] at answers
      obtain ⟨made, _, allocated, before⟩ := bind_eq_ok before
      obtain ⟨callee, _, found, before⟩ := bind_eq_ok before
      obtain ⟨_, _, analyzed, evaluated⟩ := bind_eq_ok before
      have start := ((invariant.allocate opened temporaries type).after holds allocated).1
      obtain ⟨start, known⟩ := (invariant.method opened _ _).after start found
      have callable := callee? _ callee (by simp only [Node.callee, named, ↓reduceIte]) known
      have start := (invariant.requireAnalyzed opened _ callable).after start analyzed
      have kept := ((invariant.evalNamed (made :: temporaries) opened scope member past
        (answers.mono fun node listed => by simp [listed])).after start evaluated).1
      exact ⟨_, _, kept, member, answers.mono fun node listed => by simp [listed]⟩
  | @initial scope pos type name past rest node frame reached before =>
      simp only [Node.preorder, Node.preorderNamed_append, Node.preorderNamed] at answers
      have ensures := invariant.declareAll temporaries opened scope member type past
        (answers.mono fun node listed => by simp [listed])
      exact ⟨_, _, ensures.after holds before, member,
        answers.mono fun node listed => by simp [listed]⟩
  | value =>
      exact ⟨_, _, holds, member,
        answers.mono fun node listed => .tail _ (List.mem_append_right _ listed)⟩
  | @result scope pos past rest value frame reached before =>
      simp only [Node.preorder, Node.preorderAll_append, Node.preorderAll] at answers
      have ensures := invariant.returnAll temporaries opened scope member past
        (answers.mono fun node listed => by simp [listed])
      exact ⟨_, _, ensures.after holds before, member,
        answers.mono fun node listed => by simp [listed]⟩
  | @argument scope pos qualifier name past rest arg frame reached values before =>
      have callee? := answers _ (.head _)
      simp only [Node.preorder, Node.preorderAll_append, Node.preorderAll] at answers
      obtain ⟨type, _, answered, before⟩ := bind_eq_ok before
      obtain ⟨callee, _, found, before⟩ := bind_eq_ok before
      obtain ⟨receiver, _, denoted, before⟩ := bind_eq_ok before
      obtain ⟨_, _, analyzed, evaluated⟩ := bind_eq_ok before
      obtain ⟨typed, rfl⟩ := Step.ofRegistry_eq_ok answered
      obtain ⟨start, known⟩ := (invariant.method opened temporaries _).after holds found
      have callable := callee? _ callee (by simp only [Node.callee, typed]) known
      have start :=
        ((invariant.callReceiver opened temporaries scope qualifier).after start denoted).1
      have start := (invariant.requireAnalyzed opened temporaries callable).after start analyzed
      have kept := ((invariant.evalAll temporaries opened scope member past
        (answers.mono fun node listed => by simp [listed])).after start evaluated).1
      exact ⟨_, _, kept, member, answers.mono fun node listed => by simp [listed]⟩
  | @operand scope pos op past rest operand frame reached values before =>
      simp only [Node.preorder, Node.preorderAll_append, Node.preorderAll] at answers
      have ensures := invariant.evalAll temporaries opened scope member past
        (answers.mono fun node listed => by simp [listed])
      exact ⟨_, _, (ensures.after holds before).1, member,
        answers.mono fun node listed => by simp [listed]⟩

end Invariant

variable {registry : Registry} {summaries : Summaries} {method : Method} {lastId : Nat}
variable {held : List Ref} {opened : List ScopeId} {scope : ScopeId} {frame next : Frame}

/-- The frame is kept up at every site that the evaluation of a unit comes to. -/
theorem Visits.upkeep {site : Site}
    (visits : Visits (.counting registry summaries method) lastId site) :
    ∃ held opened temporaries,
      (Eval.upkeep registry summaries method held).At opened temporaries site := by
  induction visits with
  | @stmt entry memory block site entered declared enters =>
      have start : (Eval.upkeep registry summaries method _).At [entry.root] []
          ⟨entry.root, block.node, entry.frame memory⟩ :=
        ⟨upkeep_enter entered, .head _, answersAll_upkeep _ _ _ _ _⟩
      exact ⟨_, start.enters enters⟩
  | inside _ enters ih =>
      obtain ⟨held, opened, temporaries, stands⟩ := ih
      exact ⟨held, stands.enters enters⟩

/-! ## States in between -/

/-- A move that does something to objects, and nothing to scopes and bindings. -/
def Move.onObjects : Move → Bool
  | openScope .. | close .. | declare .. | rebind .. | drop .. => false
  | _ => true

/-- The evaluation of a unit goes through a state, in which names are looked up in a
scope: the entry of the unit, a site or the end of one, a scope that has been opened, or
what comes of either when something is done to objects. -/
inductive Reaches (context : Context) (lastId : Nat) : ScopeId → Frame → Prop where
  | entry {entry : Entry} {memory : Memory}
      (entered : enter context.rules context.method (.ofHeap (.startingAfter lastId)) =
        .ok entry memory) : Reaches context lastId entry.root (entry.frame memory)
  | visited {site : Site} (visits : Visits context lastId site) :
      Reaches context lastId site.scope site.frame
  | evaluated {site : Site} {result : Option Ref} {next : Frame}
      (visits : Visits context lastId site)
      (done : Step.eval context site.scope site.node site.frame = .ok result next) :
      Reaches context lastId site.scope next
  | opened {scope child : ScopeId} {frame next : Frame}
      (reaches : Reaches context lastId scope frame)
      (opens : Step.onMemory (Memory.openChild scope) frame = .ok child next) :
      Reaches context lastId child next
  | touched {scope : ScopeId} {frame : Frame} {move : Move}
      (reaches : Reaches context lastId scope frame) (objects : move.onObjects = true) :
      Reaches context lastId scope (ending (move.step context frame))

/-- The memory is sound, the receiver is bound in a scope, and all names are bound under
types of a table. -/
structure Grounded (table : Environment) (held : List Ref) (opened : List ScopeId)
    (scope : ScopeId) (frame : Frame) : Prop where
  sound : frame.memory.Sound held opened
  receiver : frame.memory.Binds scope this
  labels : frame.memory.labels ⊆ table

/-- Whether a field is set or not, the memory stays sound. -/
theorem sound_ending_setField {memory : Memory} (sound : memory.Sound held opened)
    (owner : Option Ref) (name : String) (value : Option Ref) :
    { memory with heap := ending (Heap.setField owner name value memory.heap) }.Sound held
      opened := by
  rcases sound.setField owner name value with ⟨_, refused, _⟩ | ⟨_, set, sound⟩
  · rw [refused]
    exact sound
  · rw [set]
    exact sound

/-- Doing something to objects keeps a memory sound, and its scopes and bindings. -/
theorem Move.sound_of_onObjects {move : Move} (objects : move.onObjects = true)
    (sound : frame.memory.Sound held opened) :
    ∃ heap, (ending (move.step (.counting registry summaries method) frame)).memory =
        { frame.memory with heap } ∧ { frame.memory with heap }.Sound held opened := by
  cases move with
  | openScope | close | declare | rebind | drop => cases objects
  | allocate type => exact ⟨_, rfl, sound.withNew type false⟩
  | materialize owner type name =>
      rw [ending_materialize]
      exact ⟨_, rfl, sound_ending_setField (sound.withNew type true) _ _ _⟩
  | store pos owner name value =>
      rw [ending_store]
      have kept := sound_ending_setField sound (some owner) name value
      exact ⟨_, by simp [Frame.withHeap, Frame.mark, Frame.heap], kept⟩
  | construct pos owner name value =>
      rw [ending_construct]
      exact ⟨_, rfl, sound_ending_setField sound _ _ _⟩
  | capture pos receiver callee param argument =>
      rw [ending_capture]
      have kept := sound_ending_setField sound (some (receiver.getD frame.sink))
        (Step.captureField callee param (frame.captures + 1)) (some argument)
      exact ⟨_, by simp [Frame.withHeap, Frame.heap], kept⟩
  | taint pos object =>
      rw [step, Step.taint_eq]
      exact ⟨_, Frame.memory_taint frame pos object, sound⟩
  | returned object => cases object <;> exact ⟨_, rfl, sound⟩
  | sweep =>
      obtain ⟨heap, swept, kept, _⟩ := sound.sweep
      have swept : Heap.sweep frame.heap = .ok () heap := swept
      rw [step, Step.ending_onHeap, show Heap.Discipline.counting.sweep frame.heap = _ from swept]
      exact ⟨_, rfl, kept⟩
  | skip pos construct => exact ⟨_, rfl, sound⟩
  | note entry => exact ⟨_, rfl, sound⟩

namespace Grounded

variable {table : Environment}

theorem listed (grounded : Grounded table held opened scope frame) : frame.memory.Listed :=
  grounded.sound.owned.declared

/-- The bindings of a frame do not depend on its heap. -/
theorem withHeap (grounded : Grounded table held opened scope frame) {heap : Heap}
    (same : next.memory = { frame.memory with heap })
    (sound : { frame.memory with heap }.Sound held opened) :
    Grounded table held opened scope next := by
  refine ⟨same ▸ sound, ?_, ?_⟩
  · rw [same]
    exact grounded.receiver
  · rw [same]
    exact grounded.labels

theorem advances {later : List ScopeId} (grounded : Grounded table held opened scope frame)
    (advances : Memory.Advances table frame.memory next.memory)
    (sound : next.memory.Sound held later) : Grounded table held later scope next where
  sound := sound
  receiver := grounded.receiver.advances grounded.listed advances
  labels := fun _ member =>
    (advances.labels _ member).elim (fun earlier => grounded.labels earlier) id

end Grounded

/-- In all states of an evaluation the memory is sound and the receiver is bound. -/
theorem Reaches.grounded
    (reaches : Reaches (.counting registry summaries method) lastId scope frame) :
    ∃ held opened, Grounded (tableOf method) held opened scope frame := by
  induction reaches with
  | @entry entry memory entered =>
      obtain ⟨_, labels, binds⟩ := binds_of_enter entered
      refine ⟨_, _, sound_enter entered, binds _ (.head _), ?_⟩
      exact List.Subset.trans labels (List.cons_subset_cons _ (List.subset_append_left _ _))
  | @visited site visits =>
      obtain ⟨held, opened, temporaries, stands⟩ := visits.upkeep
      obtain ⟨env, fit⟩ := visits.fit fun _ _ => throughout_receiver method _
      exact ⟨held, opened, stands.holds.sound, fit.binds _ fit.throughout.here, fit.labels⟩
  | @evaluated site result next visits done =>
      obtain ⟨held, opened, temporaries, stands⟩ := visits.upkeep
      obtain ⟨env, fit⟩ := visits.fit fun _ _ => throughout_receiver method _
      have kept := ((upkeep registry summaries method held).eval temporaries opened site.scope
        stands.member site.node stands.answers).after stands.holds done
      have start : Grounded (tableOf method) held opened site.scope site.frame :=
        ⟨stands.holds.sound, fit.binds _ fit.throughout.here, fit.labels⟩
      exact ⟨held, opened, start.advances
        (Advancing.eval _ site.scope site.node fit.declares done) kept.1.sound⟩
  | @opened scope child frame next _ opens ih =>
      obtain ⟨held, opened, grounded⟩ := ih
      obtain ⟨memory, begins, rfl⟩ := Step.onMemory_eq_ok opens
      have binds := grounded.receiver.openChild begins
      cases begins
      refine ⟨held, _, grounded.sound.openScope _, binds, grounded.labels⟩
  | @touched scope frame move _ objects ih =>
      obtain ⟨held, opened, grounded⟩ := ih
      obtain ⟨heap, same, sound⟩ := Move.sound_of_onObjects objects grounded.sound
      exact ⟨held, opened, grounded.withHeap same sound⟩

end Custody.Eval
