import Custody.Eval.Unit
import Custody.Graph.Edges
import Custody.Proofs.Eval.Reading

/-!
# Simulations of an evaluation

A body may be evaluated twice, with other rules for the heap and with other
summaries.  `Simulation` lists what the steps that touch the frame have to keep
of an agreement between the two frames.  If they do, the whole evaluation of
every node keeps it, as long as the summaries of the units that the node calls fit
together, and so do the names under which it attaches arguments to new objects.
Summaries that are the same on both sides always do.

What an evaluation has in hand is not held by any binding or field.  An agreement
therefore comes with the temporaries that are in hand, and it is told apart
which objects may be read: those that a binding or a field was just seen to hold.
A body works in inner scopes only, and it never rebinds the receiver.
-/

namespace Custody.Eval

open Code

/-- An agreement of frames that the steps of two evaluations keep. -/
structure Simulation (context : Context) (rules : Heap.Discipline) (summaries : Summaries) extends
    Fate where
  /-- The frames agree, with temporaries in hand. -/
  Agree : List Ref → Frame → Frame → Prop
  /-- The object may be read on the left. -/
  Readable : Frame → Ref → Prop
  /-- The scope is one that a body works in. -/
  Inner : ScopeId → Prop
  /-- Arguments may be attached to new objects under the name. -/
  Attaches : String → Prop
  /-- The two summaries of the unit fit together. -/
  Fits : Method → Prop
  lost : ∀ {temporaries frame other}, Agree temporaries frame other → Lost frame
  forget : ∀ {temporary temporaries frame other},
    Agree (temporary :: temporaries) frame other → Agree temporaries frame other
  lookup : ∀ {temporaries frame other} scope name, Agree temporaries frame other →
    other.memory.lookup? scope name = frame.memory.lookup? scope name
  binding : ∀ {temporaries frame other scope name binding}, Agree temporaries frame other →
    frame.memory.lookup? scope name = some binding →
    other.memory.binding binding = frame.memory.binding binding ∧
      ∀ object ∈ (frame.memory.binding binding).object, Readable frame object
  note : ∀ temporaries entry, Coupled toFate (Agree temporaries) (fun _ => Agree temporaries)
    (Step.note entry) (Step.note entry)
  skip : ∀ temporaries pos construct,
    Coupled toFate (Agree temporaries) (fun _ => Agree temporaries)
      (Step.skip context pos construct) (Step.skip (context.under rules summaries) pos construct)
  taint : ∀ temporaries pos object,
    Coupled toFate (Agree temporaries) (fun _ => Agree temporaries)
      (Step.taint pos object) (Step.taint pos object)
  returned : ∀ temporaries object,
    Coupled toFate (Agree temporaries) (fun _ => Agree temporaries)
      (Step.returned object) (Step.returned object)
  allocate : ∀ temporaries type,
    Coupled toFate (Agree temporaries) (fun made => Agree (made :: temporaries))
      (Step.onHeap (Heap.allocate type false)) (Step.onHeap (Heap.allocate type false))
  read : ∀ temporaries owner type name, context.registry.HasField name →
    Coupled toFate
      (fun frame other => Agree temporaries frame other ∧ Readable frame owner)
      (fun found frame other =>
        Agree temporaries frame other ∧ ∀ object ∈ found, Readable frame object)
      (Step.read context owner type name)
      (Step.read (context.under rules summaries) owner type name)
  overwrite : ∀ temporaries pos owner name value, context.registry.HasField name →
    Coupled toFate
      (fun frame other => Agree temporaries frame other ∧ Readable frame owner)
      (fun _ => Agree temporaries)
      (Step.overwrite context pos owner name value)
      (Step.overwrite (context.under rules summaries) pos owner name value)
  numbered : ∀ index : Nat, Attaches ("$" ++ toString index)
  construct : ∀ temporaries pos owner name value, Attaches name → owner ∈ temporaries →
    Coupled toFate (Agree temporaries) (fun _ => Agree temporaries)
      (Step.construct context pos owner name value)
      (Step.construct (context.under rules summaries) pos owner name value)
  capture : ∀ temporaries pos receiver callee param argument,
    Coupled toFate (Agree temporaries) (fun _ => Agree temporaries)
      (Step.capture context pos receiver callee param argument)
      (Step.capture (context.under rules summaries) pos receiver callee param argument)
  /-- Two summaries that fit together are the same, or have effects that keep the
  agreement. -/
  effects : ∀ callee, Fits callee → summaries.of callee = context.summaries.of callee ∨
    ∀ temporaries,
      Coupled toFate (Agree temporaries) (fun _ => Agree temporaries)
        (Step.requireAnalyzed context callee)
        (Step.requireAnalyzed (context.under rules summaries) callee) ∧
      ∀ pos receiver values,
        Coupled toFate (Agree temporaries) (fun _ => Agree temporaries)
          (Step.applyEffects context pos callee receiver values)
          (Step.applyEffects (context.under rules summaries) pos callee receiver values)
  openChild : ∀ temporaries scope,
    Coupled toFate (Agree temporaries)
      (fun child frame other => Agree temporaries frame other ∧ Inner child)
      (Step.onMemory (Memory.openChild scope)) (Step.onMemory (Memory.openChild scope))
  close : ∀ temporaries scope, Inner scope →
    Coupled toFate (Agree temporaries) (fun _ => Agree temporaries)
      (Step.onMemory (Memory.close context.rules scope)) (Step.onMemory (Memory.close rules scope))
  declare : ∀ temporaries scope name type object, Inner scope →
    Coupled toFate (Agree temporaries) (fun _ => Agree temporaries)
      (Step.onMemory (Memory.declare context.rules scope name type object))
      (Step.onMemory (Memory.declare rules scope name type object))
  rebind : ∀ temporaries scope name binding object, name ≠ this →
    Coupled toFate
      (fun frame other =>
        Agree temporaries frame other ∧ frame.memory.lookup? scope name = some binding)
      (fun _ => Agree temporaries)
      (Step.onMemory (Memory.rebind context.rules binding object))
      (Step.onMemory (Memory.rebind rules binding object))
  sweep : ∀ temporaries,
    Coupled toFate (Agree temporaries) (fun _ => Agree temporaries)
      (Step.onHeap context.rules.sweep) (Step.onHeap rules.sweep)

namespace Simulation

variable {context : Context} {rules : Heap.Discipline} {summaries : Summaries}
variable (simulation : Simulation context rules summaries) (temporaries : List Ref)

/-- What both sides read is the same. -/
def reading : Reading context rules summaries where
  toFate := simulation.toFate
  Agree := simulation.Agree temporaries
  Readable := simulation.Readable
  Alike _ := True
  Shared := context.registry.HasField
  lost := simulation.lost
  lookup scope name _ := simulation.lookup scope name
  binding _ := simulation.binding
  read := simulation.read temporaries

theorem covers (name : String) : (simulation.reading temporaries).Covers name := id

theorem path (scope : ScopeId) (qualifier : String) :
    Coupled simulation.toFate (simulation.Agree temporaries)
      (fun place => (simulation.reading temporaries).AgreeOn place.1)
      (Step.path context scope qualifier)
      (Step.path (context.under rules summaries) scope qualifier) :=
  (simulation.reading temporaries).path scope trivial trivial
    fun name _ => simulation.covers temporaries name

theorem first (scope : ScopeId) (name : String) :
    Coupled simulation.toFate (simulation.Agree temporaries)
      (fun place => (simulation.reading temporaries).AgreeOn place.1)
      (Step.first context scope name) (Step.first (context.under rules summaries) scope name) :=
  (simulation.reading temporaries).first scope trivial trivial (simulation.covers temporaries name)

theorem reference (scope : ScopeId) (target : Reference) :
    Coupled simulation.toFate (simulation.Agree temporaries)
      (fun _ => simulation.Agree temporaries)
      (Step.reference context scope target)
      (Step.reference (context.under rules summaries) scope target) := by
  unfold Step.reference
  split
  · refine (simulation.first temporaries scope target.member).bind fun place => ?_
    exact .pure fun _ _ agree => agree.1
  · refine (simulation.path temporaries scope target.qualifier).bind fun place => ?_
    refine ((simulation.reading temporaries).field place.1 place.2
      (simulation.covers temporaries target.member)).bind fun found => ?_
    exact .pure fun _ _ agree => agree.1

theorem store (pos : Int) (owner : Option Ref) (ownerType name : String) (value : Option Ref) :
    Coupled simulation.toFate ((simulation.reading temporaries).AgreeOn owner)
      (fun _ => simulation.Agree temporaries)
      (Step.store context pos owner ownerType name value)
      (Step.store (context.under rules summaries) pos owner ownerType name value) := by
  rw [Step.store_eq, Step.store_eq]
  refine (Coupled.ofRegistry fun _ _ agree => simulation.lost agree.1).bind fun type => ?_
  refine .assuming fun known => ?_
  cases owner with
  | none => exact (simulation.note temporaries _).start fun _ _ agree => agree.1
  | some owner =>
      exact (simulation.overwrite temporaries pos owner name value ⟨ownerType, type, known⟩).start
        fun _ _ agree => ⟨agree.1, agree.2 owner rfl⟩

theorem assign (scope : ScopeId) (pos : Int) (target : Reference) (value : Option Ref) :
    Coupled simulation.toFate (simulation.Agree temporaries)
      (fun _ => simulation.Agree temporaries)
      (Step.assign context scope pos target value)
      (Step.assign (context.under rules summaries) scope pos target value) := by
  unfold Step.assign
  split
  next =>
    refine (simulation.path temporaries scope target.qualifier).bind fun place => ?_
    exact simulation.store temporaries pos place.1 place.2 target.member value
  next =>
    split
    next => exact simulation.skip temporaries pos _
    next other =>
      refine .get fun frame across agree => ?_
      rw [simulation.lookup scope target.member agree]
      cases found : frame.memory.lookup? scope target.member with
      | some binding =>
          exact simulation.rebind temporaries scope target.member binding value other frame across
            ⟨agree, found⟩
      | none =>
          exact ((simulation.reading temporaries).receiver scope trivial).bind
            (fun object => simulation.store temporaries pos object _ _ value) frame across agree

/-! ## Calling units -/

theorem method (unit : UnitId) :
    Coupled simulation.toFate (simulation.Agree temporaries)
      (fun callee frame other => simulation.Agree temporaries frame other ∧
        context.registry.method? unit = some callee)
      (Step.method context unit) (Step.method (context.under rules summaries) unit) := by
  refine (Coupled.ofRegistry fun _ _ => simulation.lost).bind fun owner => ?_
  refine .assuming fun known => ?_
  have resolved : context.registry.method? unit = owner.method? unit.member := by
    unfold Registry.lookup at known
    unfold Registry.method?
    split at known
    next found same => cases known; rw [same]; rfl
    next => cases known
  rw [resolved]
  cases owner.method? unit.member with
  | some callee => exact .pure fun _ _ agree => ⟨agree, rfl⟩
  | none => exact .fail fun _ _ => simulation.lost

variable {callee : Method}

theorem requireAnalyzed (fits : simulation.Fits callee) :
    Coupled simulation.toFate (simulation.Agree temporaries)
      (fun _ => simulation.Agree temporaries)
      (Step.requireAnalyzed context callee)
      (Step.requireAnalyzed (context.under rules summaries) callee) := by
  rcases simulation.effects callee fits with same | keeps
  · unfold Step.requireAnalyzed
    rw [same]
    split
    · exact .fail fun _ _ => simulation.lost
    · exact .pure fun _ _ agree => agree
  · exact (keeps temporaries).1

theorem applyArguments (same : summaries.of callee = context.summaries.of callee) (pos : Int)
    (receiver : Option Ref) (values : List (Option Ref))
    (index : Nat) (result : Option Ref) :
    Coupled simulation.toFate (simulation.Agree temporaries)
      (fun _ => simulation.Agree temporaries)
      (Step.applyArguments context pos callee receiver index values result)
      (Step.applyArguments (context.under rules summaries) pos callee receiver index values
        result) := by
  induction values generalizing index result with
  | nil => exact .pure fun _ _ agree => agree
  | cons value rest ih =>
      unfold Step.applyArguments
      cases callee.paramAt? index with
      | none => exact .pure fun _ _ agree => agree
      | some param =>
          dsimp only
          rw [same]
          cases (context.summaries.of callee).param callee.unit param.name with
          | error error => exact .fail fun _ _ => simulation.lost
          | ok effect =>
              cases effect with
              | unknown => exact .fail fun _ _ => simulation.lost
              | passForward => exact ih (index + 1) (result.or value)
              | doesNotChange => exact ih (index + 1) result
              | doesChange =>
                  cases value with
                  | none => exact ih (index + 1) result
                  | some value =>
                      exact (simulation.capture temporaries pos receiver callee.unit param.name
                        value).bind fun _ => ih (index + 1) result

theorem applyEffects (fits : simulation.Fits callee) (pos : Int) (receiver : Option Ref)
    (values : List (Option Ref)) :
    Coupled simulation.toFate (simulation.Agree temporaries)
      (fun _ => simulation.Agree temporaries)
      (Step.applyEffects context pos callee receiver values)
      (Step.applyEffects (context.under rules summaries) pos callee receiver values) := by
  rcases simulation.effects callee fits with same | keeps
  · unfold Step.applyEffects
    rw [same]
    refine (simulation.applyArguments temporaries same pos receiver values 0 none).bind
      fun result => ?_
    cases (context.summaries.of callee).receiver with
    | doesChange =>
        refine (simulation.taint temporaries pos receiver).bind fun _ => ?_
        exact .pure fun _ _ agree => agree
    | passForward => exact .pure fun _ _ agree => agree
    | doesNotChange => exact .pure fun _ _ agree => agree
    | unknown => exact .pure fun _ _ agree => agree
  · exact (keeps temporaries).2 pos receiver values

theorem callReceiver (scope : ScopeId) (qualifier : String) :
    Coupled simulation.toFate (simulation.Agree temporaries)
      (fun _ => simulation.Agree temporaries)
      (Step.callReceiver context scope qualifier)
      (Step.callReceiver (context.under rules summaries) scope qualifier) := by
  unfold Step.callReceiver
  split
  · refine (simulation.first temporaries scope this).bind fun place => ?_
    exact .pure fun _ _ agree => agree.1
  · refine (simulation.path temporaries scope qualifier).bind fun place => ?_
    exact .pure fun _ _ agree => agree.1

/-! ## Evaluating nodes -/

theorem sweepAfter (stmt : Node) :
    Coupled simulation.toFate (simulation.Agree temporaries)
      (fun _ => simulation.Agree temporaries)
      (Step.sweepAfter context stmt)
      (Step.sweepAfter (context.under rules summaries) stmt) := by
  rw [Step.sweepAfter_eq, Step.sweepAfter_eq]
  exact (simulation.sweep temporaries).reword _

/-- Both sides have the same summaries of all units that the nodes call. -/
def Concordant (context : Context) (summaries : Summaries) (nodes : List Node) : Prop :=
  ∀ node ∈ nodes, ∀ unit callee,
    node.callee context.registry context.method = .ok (some unit) →
    context.registry.method? unit = some callee →
    summaries.of callee = context.summaries.of callee

/-- The summaries of all units that the nodes call fit together, and so do the names under
which they attach arguments. -/
structure Suits (nodes : List Node) : Prop where
  fits : ∀ node ∈ nodes, ∀ unit callee,
    node.callee context.registry context.method = .ok (some unit) →
    context.registry.method? unit = some callee → simulation.Fits callee
  attaches : ∀ pos type maker args, .new pos type maker args ∈ nodes →
    ∀ arg ∈ args, arg.1 ≠ "" → simulation.Attaches arg.1

variable {simulation}

theorem Suits.mono {nodes others : List Node} (suits : simulation.Suits nodes)
    (within : others ⊆ nodes) : simulation.Suits others where
  fits node member := suits.fits node (within member)
  attaches pos type maker args member := suits.attaches pos type maker args (within member)

/-- The names under which one node attaches arguments. -/
theorem Suits.named {nodes : List Node} (suits : simulation.Suits nodes) {pos : Int}
    {type maker : String} {args : List (String × Node)} (member : .new pos type maker args ∈ nodes)
    (index : Nat) {arg : String × Node} (listed : arg ∈ args) :
    simulation.Attaches (if arg.1 = "" then "$" ++ toString index else arg.1) := by
  split
  · exact simulation.numbered index
  next named => exact suits.attaches pos type maker args member arg listed named

/-- Where all names will do, it is enough to have the same summaries. -/
theorem Concordant.suits {nodes : List Node} (concordant : Concordant context summaries nodes)
    (fits : ∀ callee, summaries.of callee = context.summaries.of callee → simulation.Fits callee)
    (attaches : ∀ name, simulation.Attaches name) : simulation.Suits nodes where
  fits node member unit callee called known :=
    fits callee (concordant node member unit callee called known)
  attaches _ _ _ _ _ arg _ _ := attaches arg.1

variable (simulation)

mutual

/-- An evaluation keeps the agreement. -/
theorem eval (temporaries : List Ref) (scope : ScopeId) (inner : simulation.Inner scope) :
    (node : Node) → simulation.Suits node.preorder →
    Coupled simulation.toFate (simulation.Agree temporaries)
      (fun _ => simulation.Agree temporaries)
      (Step.eval context scope node) (Step.eval (context.under rules summaries) scope node)
  | .absent, _ => by
      rw [Step.eval, Step.eval]
      exact .pure fun _ _ agree => agree
  | .vacant, _ => by
      rw [Step.eval, Step.eval]
      exact .throw fun _ _ => simulation.lost
  | .block pos stmts, suits => by
      rw [Step.eval, Step.eval]
      refine (simulation.openChild temporaries scope).bind fun child => ?_
      refine .assuming fun within => ?_
      refine (block temporaries child within stmts
        (suits.mono (List.subset_cons_self _ _))).bind fun _ => ?_
      refine (simulation.close temporaries child within).locate.bind fun _ => ?_
      exact .pure fun _ _ agree => agree
  | .literal pos value isNil, _ => by
      rw [Step.eval, Step.eval]
      split
      · exact .pure fun _ _ agree => agree
      · exact (simulation.allocate temporaries "").map fun _ _ _ => simulation.forget
  | .reference target, _ => by
      rw [Step.eval, Step.eval]
      exact (simulation.reference temporaries scope target).locate
  | .new pos type maker args, suits => by
      rw [Step.eval, Step.eval]
      refine Coupled.locate ((simulation.allocate temporaries type).bind fun made => ?_)
      split
      next plain =>
        refine (attach (made :: temporaries) scope inner pos made 0 args (.head _)
          (fun index _ listed => suits.named (.head _) index listed)
          (suits.mono (List.subset_cons_self _ _))).bind fun _ => ?_
        exact .pure fun _ _ => simulation.forget
      next named =>
        refine (simulation.method (made :: temporaries) _).bind fun callee => ?_
        refine .assuming fun known => ?_
        have fits := suits.fits _ (.head _) _ callee
          (by simp only [Node.callee, named, ↓reduceIte]) known
        refine (simulation.requireAnalyzed (made :: temporaries) fits).bind fun _ => ?_
        refine (evalNamed (made :: temporaries) scope inner args
          (suits.mono (List.subset_cons_self _ _))).bind fun values => ?_
        refine (simulation.applyEffects (made :: temporaries) fits pos (some made) values).bind
          fun result => ?_
        exact .pure fun _ _ => simulation.forget
  | .localVar pos type declarators, suits => by
      rw [Step.eval, Step.eval]
      refine Coupled.locate ((declareAll temporaries scope inner type declarators
        (suits.mono (List.subset_cons_self _ _))).bind fun _ => ?_)
      exact .pure fun _ _ agree => agree
  | .assign pos target value, suits => by
      rw [Step.eval, Step.eval]
      refine Coupled.locate ((eval temporaries scope inner value (suits.mono ?_)).bind
        fun value => ?_)
      · intro node member
        exact .tail _ (List.mem_append_right _ member)
      · cases target with
        | none => exact .throw fun _ _ => simulation.lost
        | some target =>
            refine (simulation.assign temporaries scope pos target value).bind fun _ => ?_
            exact .pure fun _ _ agree => agree
  | .ret pos values, suits => by
      rw [Step.eval, Step.eval]
      refine (returnAll temporaries scope inner values
        (suits.mono (List.subset_cons_self _ _))).bind fun _ => ?_
      exact .pure fun _ _ agree => agree
  | .call pos qualifier member args, suits => by
      rw [Step.eval, Step.eval]
      refine Coupled.locate ((Coupled.ofRegistry fun _ _ => simulation.lost).bind fun type => ?_)
      refine .assuming fun typed => ?_
      refine (simulation.method temporaries ⟨type, member⟩).bind fun callee => ?_
      refine .assuming fun known => ?_
      have fits := suits.fits _ (.head _) ⟨type, member⟩ callee
        (by simp only [Node.callee, typed]) known
      refine (simulation.callReceiver temporaries scope qualifier).bind fun receiver => ?_
      refine (simulation.requireAnalyzed temporaries fits).bind fun _ => ?_
      refine (evalAll temporaries scope inner args
        (suits.mono (List.subset_cons_self _ _))).bind fun values => ?_
      refine (simulation.applyEffects temporaries fits pos receiver values).bind fun result => ?_
      cases result with
      | some result => exact .pure fun _ _ agree => agree
      | none =>
          dsimp only
          split
          · exact .pure fun _ _ agree => agree
          · exact (simulation.allocate temporaries _).map fun _ _ _ => simulation.forget
  | .operation pos op operands, suits => by
      rw [Step.eval, Step.eval]
      refine (evalAll temporaries scope inner operands
        (suits.mono (List.subset_cons_self _ _))).bind fun _ => ?_
      exact (simulation.allocate temporaries "").map fun _ _ _ => simulation.forget
  | .unsupported pos construct, _ => by
      rw [Step.eval, Step.eval]
      refine (simulation.skip temporaries pos construct).bind fun _ => ?_
      exact .pure fun _ _ agree => agree
  | .alien pos kind, _ => by
      rw [Step.eval, Step.eval]
      refine (simulation.skip temporaries pos kind.name).bind fun _ => ?_
      exact .pure fun _ _ agree => agree
  termination_by structural node => node

theorem block (temporaries : List Ref) (scope : ScopeId) (inner : simulation.Inner scope) :
    (stmts : List Node) →
    simulation.Suits (Node.preorderAll stmts) →
    Coupled simulation.toFate (simulation.Agree temporaries)
      (fun _ => simulation.Agree temporaries)
      (Step.block context scope stmts) (Step.block (context.under rules summaries) scope stmts)
  | [], _ => by
      rw [Step.block, Step.block]
      exact .pure fun _ _ agree => agree
  | stmt :: rest, suits => by
      rw [Step.block, Step.block]
      refine (eval temporaries scope inner stmt
        (suits.mono (List.subset_append_left _ _))).bind fun _ => ?_
      refine (simulation.sweepAfter temporaries stmt).bind fun _ => ?_
      exact block temporaries scope inner rest (suits.mono (List.subset_append_right _ _))
  termination_by structural stmts => stmts

theorem evalAll (temporaries : List Ref) (scope : ScopeId) (inner : simulation.Inner scope) :
    (nodes : List Node) →
    simulation.Suits (Node.preorderAll nodes) →
    Coupled simulation.toFate (simulation.Agree temporaries)
      (fun _ => simulation.Agree temporaries)
      (Step.evalAll context scope nodes)
      (Step.evalAll (context.under rules summaries) scope nodes)
  | [], _ => by
      rw [Step.evalAll, Step.evalAll]
      exact .pure fun _ _ agree => agree
  | node :: rest, suits => by
      rw [Step.evalAll, Step.evalAll]
      refine (eval temporaries scope inner node
        (suits.mono (List.subset_append_left _ _))).bind fun value => ?_
      refine (evalAll temporaries scope inner rest
        (suits.mono (List.subset_append_right _ _))).bind fun values => ?_
      exact .pure fun _ _ agree => agree
  termination_by structural nodes => nodes

theorem evalNamed (temporaries : List Ref) (scope : ScopeId) (inner : simulation.Inner scope) :
    (args : List (String × Node)) →
    simulation.Suits (Node.preorderNamed args) →
    Coupled simulation.toFate (simulation.Agree temporaries)
      (fun _ => simulation.Agree temporaries)
      (Step.evalNamed context scope args)
      (Step.evalNamed (context.under rules summaries) scope args)
  | [], _ => by
      rw [Step.evalNamed, Step.evalNamed]
      exact .pure fun _ _ agree => agree
  | (name, node) :: rest, suits => by
      rw [Step.evalNamed, Step.evalNamed]
      refine (eval temporaries scope inner node
        (suits.mono (List.subset_append_left _ _))).bind fun value => ?_
      refine (evalNamed temporaries scope inner rest
        (suits.mono (List.subset_append_right _ _))).bind fun values => ?_
      exact .pure fun _ _ agree => agree
  termination_by structural args => args

theorem attach (temporaries : List Ref) (scope : ScopeId) (inner : simulation.Inner scope)
    (pos : Int) (owner : Ref) (index : Nat) :
    (args : List (String × Node)) → owner ∈ temporaries →
    (∀ (index : Nat), ∀ arg ∈ args,
      simulation.Attaches (if arg.1 = "" then "$" ++ toString index else arg.1)) →
    simulation.Suits (Node.preorderNamed args) →
    Coupled simulation.toFate (simulation.Agree temporaries)
      (fun _ => simulation.Agree temporaries)
      (Step.attach context scope pos owner index args)
      (Step.attach (context.under rules summaries) scope pos owner index args)
  | [], _, _, _ => by
      rw [Step.attach, Step.attach]
      exact .pure fun _ _ agree => agree
  | (name, node) :: rest, inHand, named, suits => by
      rw [Step.attach_cons, Step.attach_cons]
      refine (eval temporaries scope inner node
        (suits.mono (List.subset_append_left _ _))).bind fun value => ?_
      refine Coupled.bind ?_ fun _ => attach temporaries scope inner pos owner (index + 1) rest inHand
        (fun index arg listed => named index arg (.tail _ listed))
        (suits.mono (List.subset_append_right _ _))
      cases value with
      | none => exact .pure fun _ _ agree => agree
      | some value =>
          exact simulation.construct temporaries pos owner _ value (named index _ (.head _)) inHand
  termination_by structural args => args

theorem declareAll (temporaries : List Ref) (scope : ScopeId) (inner : simulation.Inner scope)
    (type : String) :
    (declarators : List (String × Node)) →
    simulation.Suits (Node.preorderNamed declarators) →
    Coupled simulation.toFate (simulation.Agree temporaries)
      (fun _ => simulation.Agree temporaries)
      (Step.declareAll context scope type declarators)
      (Step.declareAll (context.under rules summaries) scope type declarators)
  | [], _ => by
      rw [Step.declareAll, Step.declareAll]
      exact .pure fun _ _ agree => agree
  | (name, node) :: rest, suits => by
      rw [Step.declareAll, Step.declareAll]
      refine (eval temporaries scope inner node
        (suits.mono (List.subset_append_left _ _))).bind fun value => ?_
      refine (simulation.declare temporaries scope name type value inner).bind fun _ => ?_
      exact declareAll temporaries scope inner type rest
        (suits.mono (List.subset_append_right _ _))
  termination_by structural declarators => declarators

theorem returnAll (temporaries : List Ref) (scope : ScopeId) (inner : simulation.Inner scope) :
    (values : List Node) →
    simulation.Suits (Node.preorderAll values) →
    Coupled simulation.toFate (simulation.Agree temporaries)
      (fun _ => simulation.Agree temporaries)
      (Step.returnAll context scope values)
      (Step.returnAll (context.under rules summaries) scope values)
  | [], _ => by
      rw [Step.returnAll, Step.returnAll]
      exact .pure fun _ _ agree => agree
  | node :: rest, suits => by
      rw [Step.returnAll, Step.returnAll]
      refine (eval temporaries scope inner node
        (suits.mono (List.subset_append_left _ _))).bind fun value => ?_
      refine (simulation.returned temporaries value).bind fun _ => ?_
      exact returnAll temporaries scope inner rest (suits.mono (List.subset_append_right _ _))
  termination_by structural values => values

end

/-- The evaluation of a body keeps the agreement. -/
theorem body (root : ScopeId)
    (suits : simulation.Suits context.method.decl.nodes) :
    Coupled simulation.toFate (simulation.Agree []) (fun _ => simulation.Agree [])
      (Eval.body context root) (Eval.body (context.under rules summaries) root) := by
  refine (simulation.openChild [] root).bind fun child => .assuming fun inner => ?_
  unfold MethodDecl.nodes at suits
  cases declared : context.method.decl.body with
  | none => exact .pure fun _ _ agree => agree
  | some block =>
      rw [declared] at suits
      refine (simulation.block [] child inner block.stmts
        (suits.mono (List.subset_cons_self _ _))).bind fun _ => ?_
      exact .pure fun _ _ agree => agree

end Simulation

/-! ## Units -/

/-- The frame of a unit at the end of its body. -/
def Finishes (context : Context) (lastId : Nat) (frame : Frame) : Prop :=
  ∃ entry memory inner,
    enter context.rules context.method (.ofHeap (.startingAfter lastId)) = .ok entry memory ∧
      body context entry.root (entry.frame memory) = .ok inner frame

theorem evaluate_of_ok {context : Context} {root inner : ScopeId} {start frame last : Frame}
    (finished : body context root start = .ok inner frame)
    (left : leave context root inner frame = .ok () last) :
    evaluate context root start = .ok frame.result last := by
  rw [evaluate, bind_of_ok finished]
  exact bind_of_ok left

theorem evaluate_of_error {context : Context} {root inner : ScopeId} {start frame last : Frame}
    {failure : Failure} (finished : body context root start = .ok inner frame)
    (left : leave context root inner frame = .error failure last) :
    evaluate context root start = .error failure last := by
  rw [evaluate, bind_of_ok finished]
  have told : (do
      leave context root inner
      return frame.result : Step Result) frame = .error failure last := bind_of_error left
  exact told

/-- A unit has a result if it can be entered, its body evaluated, and left. -/
theorem run_of_ok {context : Context} {lastId : Nat} {owner : Class} {entry : Entry}
    {memory : Memory} {inner : ScopeId} {frame last : Frame}
    (known : context.registry.lookup context.method.owner = .ok owner)
    (entered : enter context.rules context.method (.ofHeap (.startingAfter lastId)) =
      .ok entry memory)
    (finished : body context entry.root (entry.frame memory) = .ok inner frame)
    (left : leave context entry.root inner frame = .ok () last) :
    (run context lastId).result = .ok frame.result := by
  unfold run
  rw [known]
  simp only [entered, evaluate_of_ok finished left]

theorem run_eq_ok {context : Context} {lastId : Nat} {result : Result}
    (done : (run context lastId).result = .ok result) :
    ∃ owner, context.registry.lookup context.method.owner = .ok owner ∧
      ∃ entry memory inner frame last,
        enter context.rules context.method (.ofHeap (.startingAfter lastId)) = .ok entry memory ∧
        body context entry.root (entry.frame memory) = .ok inner frame ∧
        leave context entry.root inner frame = .ok () last ∧ result = frame.result := by
  unfold run at done
  split at done
  next => cases done
  next owner known =>
    split at done
    next => cases done
    next entry memory entered =>
      split at done
      next told last evaluated =>
        cases done
        obtain ⟨inner, frame, finished, rest⟩ := bind_eq_ok evaluated
        obtain ⟨_, middle, left, told⟩ := bind_eq_ok (show (do
          leave context entry.root inner
          return frame.result : Step Result) frame = _ from rest)
        cases told
        exact ⟨owner, known, entry, memory, inner, frame, last, entered, finished, left, rfl⟩
      next => cases done

end Custody.Eval
