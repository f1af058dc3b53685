import Custody.Proofs.Eval.Elementary
import Custody.Proofs.Eval.Loops
import Custody.Proofs.Eval.Reaching
import Mathlib.Logic.Relation

/-!
# The node that is to blame for a failure

An evaluation that fails has come to a node whose own step failed: the evaluation of every
part that it came to had succeeded.  The failure names that node, and the nodes around it
pass the failure on as it is, whether they name themselves for failures of their own or not.
-/

namespace Custody

open Code Relation

/-! ## Bodies without holes -/

namespace Code.Node

/-- There is no vacant node in a tree, and every assignment has a target. -/
inductive Filled : Node → Prop where
  | absent : Filled .absent
  | block {pos : Int} {stmts : List Node} (each : ∀ stmt ∈ stmts, stmt.Filled) :
      Filled (.block pos stmts)
  | literal {pos : Int} {value : String} {isNil : Bool} : Filled (.literal pos value isNil)
  | reference {target : Reference} : Filled (.reference target)
  | new {pos : Int} {type maker : String} {args : List (String × Node)}
      (each : ∀ arg ∈ args, arg.2.Filled) : Filled (.new pos type maker args)
  | localVar {pos : Int} {type : String} {declarators : List (String × Node)}
      (each : ∀ declarator ∈ declarators, declarator.2.Filled) :
      Filled (.localVar pos type declarators)
  | assign {pos : Int} {target : Reference} {value : Node} (filled : value.Filled) :
      Filled (.assign pos (some target) value)
  | ret {pos : Int} {values : List Node} (each : ∀ value ∈ values, value.Filled) :
      Filled (.ret pos values)
  | call {pos : Int} {qualifier member : String} {args : List Node}
      (each : ∀ arg ∈ args, arg.Filled) : Filled (.call pos qualifier member args)
  | operation {pos : Int} {op : String} {operands : List Node}
      (each : ∀ operand ∈ operands, operand.Filled) : Filled (.operation pos op operands)
  | unsupported {pos : Int} {construct : String} : Filled (.unsupported pos construct)
  | alien {pos : Int} {kind : Kind} : Filled (.alien pos kind)

end Code.Node

namespace Eval

variable {α β : Type} {context : Context} {site inner outer : Site} {failure : Failure}

namespace Site.Enters

theorem filled (enters : site.Enters context inner) (filled : site.node.Filled) :
    inner.node.Filled := by
  cases enters with
  | stmt => cases filled with | block each => exact each _ (by simp)
  | @element _ _ _ name _ _ node =>
      cases filled with | new each => exact each (name, node) (by simp)
  | @passed _ _ _ _ name _ _ node =>
      cases filled with | new each => exact each (name, node) (by simp)
  | @initial _ _ _ name _ _ node =>
      cases filled with | localVar each => exact each (name, node) (by simp)
  | value => cases filled with | assign filled => exact filled
  | result => cases filled with | ret each => exact each _ (by simp)
  | argument => cases filled with | call each => exact each _ (by simp)
  | operand => cases filled with | operation each => exact each _ (by simp)

theorem sizeOf_lt (enters : site.Enters context inner) :
    sizeOf inner.node < sizeOf site.node := by
  have among : ∀ {past rest : List Node} {node : Node},
      sizeOf node < sizeOf (past ++ node :: rest) :=
    fun {_ _ _} => List.sizeOf_lt_of_mem (by simp)
  have named : ∀ {past rest : List (String × Node)} {name : String} {node : Node},
      sizeOf node < sizeOf (past ++ (name, node) :: rest) := by
    intro past rest name node
    have pair : sizeOf (name, node) < sizeOf (past ++ (name, node) :: rest) :=
      List.sizeOf_lt_of_mem (by simp)
    exact Nat.lt_trans (by simp only [Prod.mk.sizeOf_spec]; omega) pair
  cases enters with
  | @stmt _ _ _ past rest stmt =>
      have := @among past rest stmt
      simp only [Node.block.sizeOf_spec]
      omega
  | @element _ _ _ name past rest node =>
      have := @named past rest name node
      simp only [Node.new.sizeOf_spec]
      omega
  | @passed _ _ _ _ name past rest node =>
      have := @named past rest name node
      simp only [Node.new.sizeOf_spec]
      omega
  | @initial _ _ _ name past rest node =>
      have := @named past rest name node
      simp only [Node.localVar.sizeOf_spec]
      omega
  | value =>
      simp only [Node.assign.sizeOf_spec]
      omega
  | @result _ _ past rest value =>
      have := @among past rest value
      simp only [Node.ret.sizeOf_spec]
      omega
  | @argument _ _ _ _ past rest arg =>
      have := @among past rest arg
      simp only [Node.call.sizeOf_spec]
      omega
  | @operand _ _ _ past rest operand =>
      have := @among past rest operand
      simp only [Node.operation.sizeOf_spec]
      omega

end Site.Enters

/-! ## Failures that name a node -/

/-- A failure that is passed on as it is. -/
def Failure.Settled (failure : Failure) : Prop := ∀ cause, failure ≠ .plain cause

theorem Failure.Settled.locate (settled : failure.Settled) (pos : Int) (kind : Kind) :
    failure.locate pos kind = failure := by
  cases failure with
  | plain cause => exact (settled cause rfl).elim
  | _ => rfl

theorem Step.locate_eq_error {pos : Int} {kind : Kind} {step : Step α} {frame last : Frame}
    (failed : Step.locate pos kind step frame = .error failure last) :
    ∃ other, step frame = .error other last ∧ failure = other.locate pos kind := by
  unfold Step.locate at failed
  split at failed
  next => cases failed
  next other middle broken =>
    cases failed
    exact ⟨other, broken, rfl⟩

/-- A failure that names a node goes past the name of another one. -/
theorem Step.locate_of_error {pos : Int} {kind : Kind} {step : Step α} {frame last : Frame}
    (settled : failure.Settled) (failed : step frame = .error failure last) :
    Step.locate pos kind step frame = .error failure last := by
  simp only [Step.locate, failed, settled.locate]

/-- The failure after a statement does name it, unless the statement is missing. -/
theorem Step.sweepAfter_eq_error {stmt : Node} {frame last : Frame}
    (failed : Step.sweepAfter context stmt frame = .error failure last) :
    (∃ cause, failure = .located stmt.pos stmt.kind cause) ∨ failure = .malformed := by
  unfold Step.sweepAfter at failed
  split at failed
  next => cases failed
  next other middle refused =>
    obtain ⟨cause, rfl⟩ := (Elementary.onHeap context.rules.sweep).plain refused
    cases failed
    cases present : stmt.isPresent with
    | false => exact .inr rfl
    | true => exact .inl ⟨cause, rfl⟩

namespace Site

/-- What comes to a node inside of another one stops there: the evaluation of the inner node
fails, or the temporaries after it cannot be freed where it is a statement of a block. -/
inductive Stops (context : Context) : Site → Site → Failure → Prop where
  | eval {outer inner : Site} {failure : Failure} {last : Frame}
      (failed : Step.eval context inner.scope inner.node inner.frame = .error failure last) :
      Stops context outer inner failure
  | sweep {scope : ScopeId} {pos : Int} {stmts : List Node} {frame after last : Frame}
      {inner : Site} {value : Option Ref} {failure : Failure}
      (done : Step.eval context inner.scope inner.node inner.frame = .ok value after)
      (failed : Step.sweepAfter context inner.node after = .error failure last) :
      Stops context ⟨scope, .block pos stmts, frame⟩ inner failure

/-- Everything succeeds to which the evaluation comes inside of a node. -/
def Unstopped (context : Context) (site : Site) : Prop :=
  ∀ inner failure, site.Enters context inner → ¬Stops context site inner failure

/-- A node is to blame for a failure: its own evaluation fails though everything succeeds to
which it comes inside, or it is a statement after which the temporaries cannot be freed. -/
inductive Blamed (context : Context) : Site → Failure → Prop where
  | own {site : Site} {failure : Failure} {last : Frame}
      (failed : Step.eval context site.scope site.node site.frame = .error failure last)
      (parts : site.Unstopped context) : Blamed context site failure
  | swept {scope : ScopeId} {pos : Int} {stmts : List Node} {frame after last : Frame}
      {site : Site} {value : Option Ref} {failure : Failure}
      (statement : Enters context ⟨scope, .block pos stmts, frame⟩ site)
      (done : Step.eval context site.scope site.node site.frame = .ok value after)
      (failed : Step.sweepAfter context site.node after = .error failure last) :
      Blamed context site failure

/-! ## Nodes around the one that is to blame -/

/-- Where the evaluation stops at a part, the node around it fails in the same way. -/
theorem Stops.error (enters : outer.Enters context inner)
    (stops : Stops context outer inner failure) (settled : failure.Settled) :
    ∃ last, Step.eval context outer.scope outer.node outer.frame = .error failure last := by
  cases enters with
  | @stmt scope child pos past rest stmt frame reached before =>
      obtain ⟨_, opened, opens, before⟩ := bind_eq_ok before
      obtain ⟨_, _, evaluated, told⟩ := bind_eq_ok before
      cases told
      have stopped : ∃ last, Step.block context child (past ++ stmt :: rest) opened =
          .error failure last := by
        rw [Step.block_append, bind_of_ok evaluated, Step.block]
        cases stops with
        | eval failed => exact ⟨_, bind_of_error failed⟩
        | sweep done failed =>
            rw [bind_of_ok done]
            exact ⟨_, bind_of_error failed⟩
      obtain ⟨last, stopped⟩ := stopped
      rw [Step.eval, bind_of_ok opens]
      exact ⟨last, bind_of_error stopped⟩
  | @element scope pos type name past rest node frame reached before =>
      cases stops with | @eval _ _ _ last failed => ?_
      obtain ⟨made, allocated, allocates, before⟩ := bind_eq_ok before
      refine ⟨last, ?_⟩
      rw [Step.eval]
      refine Step.locate_of_error settled ?_
      rw [bind_of_ok allocates, if_pos rfl, Step.attach_append, bind_assoc, bind_of_ok before,
        Step.attach_cons, bind_assoc]
      exact bind_of_error failed
  | @passed scope pos type maker name past rest node frame reached values named before =>
      cases stops with | @eval _ _ _ last failed => ?_
      obtain ⟨made, allocated, allocates, before⟩ := bind_eq_ok before
      obtain ⟨callee, found, finds, before⟩ := bind_eq_ok before
      obtain ⟨_, checked, checks, before⟩ := bind_eq_ok before
      refine ⟨last, ?_⟩
      rw [Step.eval]
      refine Step.locate_of_error settled ?_
      rw [bind_of_ok allocates, if_neg named, bind_of_ok finds, bind_of_ok checks,
        Step.evalNamed_append, bind_assoc, bind_of_ok before, bind_assoc, Step.evalNamed,
        bind_assoc]
      exact bind_of_error failed
  | @initial scope pos type name past rest node frame reached before =>
      cases stops with | @eval _ _ _ last failed => ?_
      refine ⟨last, ?_⟩
      rw [Step.eval]
      refine Step.locate_of_error settled ?_
      rw [Step.declareAll_append, bind_assoc, bind_of_ok before, Step.declareAll, bind_assoc]
      exact bind_of_error failed
  | value =>
      cases stops with | @eval _ _ _ last failed => ?_
      refine ⟨last, ?_⟩
      rw [Step.eval]
      exact Step.locate_of_error settled (bind_of_error failed)
  | @result scope pos past rest value frame reached before =>
      cases stops with | @eval _ _ _ last failed => ?_
      refine ⟨last, ?_⟩
      rw [Step.eval, Step.returnAll_append, bind_assoc, bind_of_ok before, Step.returnAll,
        bind_assoc]
      exact bind_of_error failed
  | @argument scope pos qualifier member past rest arg frame reached values before =>
      cases stops with | @eval _ _ _ last failed => ?_
      obtain ⟨type, typed, types, before⟩ := bind_eq_ok before
      obtain ⟨callee, found, finds, before⟩ := bind_eq_ok before
      obtain ⟨receiver, received, receives, before⟩ := bind_eq_ok before
      obtain ⟨_, checked, checks, before⟩ := bind_eq_ok before
      refine ⟨last, ?_⟩
      rw [Step.eval]
      refine Step.locate_of_error settled ?_
      rw [bind_of_ok types, bind_of_ok finds, bind_of_ok receives, bind_of_ok checks,
        Step.evalAll_append, bind_assoc, bind_of_ok before, bind_assoc, Step.evalAll, bind_assoc]
      exact bind_of_error failed
  | @operand scope pos op past rest operand frame reached values before =>
      cases stops with | @eval _ _ _ last failed => ?_
      refine ⟨last, ?_⟩
      rw [Step.eval, Step.evalAll_append, bind_assoc, bind_of_ok before, bind_assoc, Step.evalAll,
        bind_assoc]
      exact bind_of_error failed

end Site

/-! ## Steps between the parts of a node -/

/-- A step fails, if it does, for a cause of its own. -/
def Plainly (step : Step α) (frame : Frame) : Prop :=
  ∀ failure last, step frame = .error failure last → ∃ cause, failure = .plain cause

theorem Elementary.plainly {step : Step α} (elementary : Elementary step) (frame : Frame) :
    Plainly step frame := fun _ _ => elementary.plain

namespace Plainly

variable {step : Step α} {next : α → Step β} {frame : Frame}

theorem of_ok {result : α} {last : Frame} (done : step frame = .ok result last) :
    Plainly step frame := by
  intro failure other failed
  rw [done] at failed
  cases failed

theorem bind (first : Plainly step frame)
    (second : ∀ result middle, step frame = .ok result middle → Plainly (next result) middle) :
    Plainly (step >>= next) frame := by
  intro failure last failed
  cases started : step frame with
  | ok result middle =>
      rw [bind_of_ok started] at failed
      exact second result middle started failure last failed
  | error other middle =>
      rw [bind_of_error started] at failed
      cases failed
      exact first _ _ started

/-- What fails plainly names the node around it. -/
theorem located {pos : Int} {kind : Kind} {last : Frame} (plainly : Plainly step frame)
    (failed : Step.locate pos kind step frame = .error failure last) :
    ∃ cause, failure = .located pos kind cause := by
  obtain ⟨other, broken, rfl⟩ := Step.locate_eq_error failed
  obtain ⟨cause, rfl⟩ := plainly _ _ broken
  exact ⟨cause, rfl⟩

end Plainly

/-! ## Parts that are done one after the other -/

/-- A step does not fail. -/
def Succeeds (step : Step α) (frame : Frame) : Prop := ∃ result last, step frame = .ok result last

theorem Succeeds.bind {step : Step α} {next : α → Step β} {frame : Frame}
    (first : Succeeds step frame)
    (second : ∀ result middle, step frame = .ok result middle → Succeeds (next result) middle) :
    Succeeds (step >>= next) frame := by
  obtain ⟨result, middle, done⟩ := first
  obtain ⟨value, last, finished⟩ := second result middle done
  exact ⟨value, last, (bind_of_ok done).trans finished⟩

theorem Succeeds.plainly {step : Step α} {frame : Frame} (succeeds : Succeeds step frame) :
    Plainly step frame := by
  obtain ⟨_, _, done⟩ := succeeds
  exact .of_ok done

section Parts

variable {scope : ScopeId} {frame : Frame}

/-- Nodes succeed if each of them does that is reached. -/
theorem succeeds_evalAll {nodes : List Node}
    (each : ∀ past node rest values reached, nodes = past ++ node :: rest →
      Step.evalAll context scope past frame = .ok values reached →
      Succeeds (Step.eval context scope node) reached) :
    Succeeds (Step.evalAll context scope nodes) frame := by
  induction nodes generalizing frame with
  | nil =>
      rw [Step.evalAll]
      exact ⟨[], frame, rfl⟩
  | cons node rest ih =>
      rw [Step.evalAll]
      refine .bind (each [] node rest [] frame rfl (by rw [Step.evalAll]; rfl))
        fun value after done => ?_
      refine .bind (ih fun past other others values reached split before => ?_) fun values last _ =>
        ⟨value :: values, last, rfl⟩
      refine each (node :: past) other others (value :: values) reached
        (by rw [split, List.cons_append]) ?_
      rw [Step.evalAll, bind_of_ok done, bind_of_ok before]
      rfl

/-- Named arguments succeed if each of them does that is reached. -/
theorem succeeds_evalNamed {args : List (String × Node)}
    (each : ∀ past name node rest values reached, args = past ++ (name, node) :: rest →
      Step.evalNamed context scope past frame = .ok values reached →
      Succeeds (Step.eval context scope node) reached) :
    Succeeds (Step.evalNamed context scope args) frame := by
  rw [Step.evalNamed_eq]
  refine succeeds_evalAll fun past node rest values reached split before => ?_
  obtain ⟨first, second, rfl, rfl, same⟩ := List.map_eq_append_iff.1 split
  obtain ⟨⟨name, _⟩, others, rfl, rfl, rfl⟩ := List.map_eq_cons_iff.1 same
  exact each first name _ others values reached rfl (by rw [Step.evalNamed_eq]; exact before)

/-- The values of a return succeed if each of them does that is reached. -/
theorem succeeds_returnAll {values : List Node}
    (each : ∀ past node rest reached, values = past ++ node :: rest →
      Step.returnAll context scope past frame = .ok () reached →
      Succeeds (Step.eval context scope node) reached) :
    Succeeds (Step.returnAll context scope values) frame := by
  refine (Loops.returnAll context scope).holds (fun frame => ⟨(), frame, rfl⟩) .bind 0
    fun past node rest reached split before => ?_
  refine (each past node rest reached split before).bind fun value after _ => ?_
  cases value <;> exact ⟨(), _, rfl⟩

/-- Arguments are attached, or one of them is refused, if each of them succeeds that is
reached. -/
theorem plainly_attach {pos : Int} {owner : Ref} {index : Nat} {args : List (String × Node)}
    (each : ∀ past name node rest reached, args = past ++ (name, node) :: rest →
      Step.attach context scope pos owner index past frame = .ok () reached →
      Succeeds (Step.eval context scope node) reached) :
    Plainly (Step.attach context scope pos owner index args) frame := by
  refine (Loops.attach context scope pos owner).holds (fun _ => .of_ok rfl) .bind index
    fun past (name, node) rest reached split before => ?_
  refine (each past name node rest reached split before).plainly.bind fun value after _ => ?_
  exact (Elementary.constructAny pos owner _ value).plainly after

/-- Variables are declared, or one of them is refused, if each initial value succeeds that is
reached. -/
theorem plainly_declareAll {type : String} {declarators : List (String × Node)}
    (each : ∀ past name node rest reached, declarators = past ++ (name, node) :: rest →
      Step.declareAll context scope type past frame = .ok () reached →
      Succeeds (Step.eval context scope node) reached) :
    Plainly (Step.declareAll context scope type declarators) frame := by
  refine (Loops.declareAll context scope type).holds (fun _ => .of_ok rfl) .bind 0
    fun past (name, node) rest reached split before => ?_
  refine (each past name node rest reached split before).plainly.bind fun value after _ => ?_
  exact (Elementary.map _ (.onMemory _)).plainly after

end Parts

/-! ## The node that is to blame -/

/-- A value is assigned, or refused for a cause. -/
theorem plainly_assign (scope : ScopeId) (pos : Int) (target : Reference) (value : Option Ref)
    (frame : Frame) : Plainly (Step.assign context scope pos target value) frame := by
  rcases Elementary.assign_cases context scope pos target value with
    ⟨_, _, skipped⟩ | ⟨_, elementary⟩
  · rw [skipped]
    exact .of_ok rfl
  · exact elementary.plainly frame

namespace Site

/-- Where nothing stops at a part, the parts that are reached succeed. -/
theorem succeeds (parts : site.Unstopped context) (enters : site.Enters context inner) :
    Succeeds (Step.eval context inner.scope inner.node) inner.frame := by
  cases done : Step.eval context inner.scope inner.node inner.frame with
  | ok value after => exact ⟨value, after, done⟩
  | error other last => exact (parts inner other enters (.eval done)).elim

/-- So all statements of a block do. -/
theorem succeeds_block {scope child : ScopeId} {pos : Int} {stmts : List Node}
    {frame opened : Frame}
    (parts : Unstopped context ⟨scope, .block pos stmts, frame⟩)
    (opens : Step.onMemory (Memory.openChild scope) frame = .ok child opened) :
    Succeeds (Step.block context child stmts) opened := by
  refine (Loops.block context child).holds (fun frame => ⟨(), frame, rfl⟩) .bind 0
    fun past stmt rest reached split before => ?_
  subst split
  have enters : Enters context ⟨scope, .block pos (past ++ stmt :: rest), frame⟩
      ⟨child, stmt, reached⟩ := by
    refine .stmt ?_
    rw [bind_of_ok opens, bind_of_ok before]
    rfl
  refine (succeeds parts enters).bind fun value after done => ?_
  cases sweeps : Step.sweepAfter context stmt after with
  | ok result last => exact ⟨result, last, sweeps⟩
  | error other last => exact (parts _ other enters (.sweep done sweeps)).elim

/-- A node that fails on its own is named. -/
theorem located_of_parts (filled : site.node.Filled) {last : Frame}
    (failed : Step.eval context site.scope site.node site.frame = .error failure last)
    (parts : site.Unstopped context) :
    ∃ cause, failure = .located site.node.pos site.node.kind cause := by
  obtain ⟨scope, node, frame⟩ := site
  dsimp only at filled failed
  rw [Step.eval.eq_def] at failed
  cases filled with
  | absent | unsupported | alien => cases failed
  | @block pos stmts each =>
      obtain ⟨child, opened, opens⟩ : ∃ child opened,
          Step.onMemory (Memory.openChild scope) frame = .ok child opened := ⟨_, _, rfl⟩
      obtain ⟨_, blocked, finished⟩ := succeeds_block parts opens
      dsimp only at failed
      rw [bind_of_ok opens, bind_of_ok finished] at failed
      cases closes : Step.locate pos .block (Step.onMemory (Memory.close context.rules child))
          blocked with
      | ok _ closed =>
          rw [bind_of_ok closes] at failed
          cases failed
      | error other closed =>
          rw [bind_of_error closes] at failed
          cases failed
          exact ((Elementary.onMemory _).plainly blocked).located closes
  | @literal pos value isNil => cases isNil <;> cases failed
  | reference => exact ((Elementary.reference _).plainly frame).located failed
  | @new pos type maker args each =>
      refine Plainly.located (.bind ((Elementary.onHeap _).plainly frame)
        fun made allocated allocates => ?_) failed
      by_cases plain : maker = ""
      · subst plain
        rw [if_pos rfl]
        refine .bind (plainly_attach fun past name node rest reached split before => ?_)
          fun _ _ _ => .of_ok rfl
        subst split
        exact succeeds parts (.element (by rw [bind_of_ok allocates]; exact before))
      · rw [if_neg plain]
        refine .bind ((Elementary.method _).plainly _) fun callee found finds => ?_
        refine .bind ((Elementary.requireAnalyzed callee).plainly _) fun _ checked checks => ?_
        have evaluates : Succeeds (Step.evalNamed context scope args) checked := by
          refine succeeds_evalNamed fun past name node rest values reached split before => ?_
          subst split
          refine succeeds parts (.passed plain (Eq.trans ?_ before))
          rw [bind_of_ok allocates, bind_of_ok finds, bind_of_ok checks]
        refine evaluates.plainly.bind fun values _ _ => ?_
        exact .bind ((Elementary.applyEffects pos callee _ values).plainly _)
          fun _ _ _ => .of_ok rfl
  | @localVar pos type declarators each =>
      refine Plainly.located (.bind (plainly_declareAll
        fun past name node rest reached split before => ?_) fun _ _ _ => .of_ok rfl) failed
      subst split
      exact succeeds parts (.initial before)
  | @assign pos target value filled =>
      refine Plainly.located (.bind (succeeds parts .value).plainly fun result _ _ => ?_) failed
      exact .bind (plainly_assign scope pos target result _) fun _ _ _ => .of_ok rfl
  | @ret pos values each =>
      have ⟨_, returned, returns⟩ : Succeeds (Step.returnAll context scope values) frame := by
        refine succeeds_returnAll fun past node rest reached split before => ?_
        subst split
        exact succeeds parts (.result before)
      dsimp only at failed
      rw [bind_of_ok returns] at failed
      cases failed
  | @call pos qualifier member args each =>
      refine Plainly.located (.bind ((Elementary.ofRegistry _).plainly _)
        fun type typed types => ?_) failed
      refine .bind ((Elementary.method _).plainly _) fun callee found finds => ?_
      refine .bind ((Elementary.callReceiver qualifier).plainly _)
        fun receiver received receives => ?_
      refine .bind ((Elementary.requireAnalyzed callee).plainly _) fun _ checked checks => ?_
      have evaluates : Succeeds (Step.evalAll context scope args) checked := by
        refine succeeds_evalAll fun past node rest values reached split before => ?_
        subst split
        refine succeeds parts (.argument (Eq.trans ?_ before))
        rw [bind_of_ok types, bind_of_ok finds, bind_of_ok receives, bind_of_ok checks]
      refine evaluates.plainly.bind fun values _ _ => ?_
      refine .bind ((Elementary.applyEffects pos callee receiver values).plainly _)
        fun result _ _ => ?_
      cases result with
      | some result => exact .of_ok rfl
      | none =>
          dsimp only
          split
          · exact .of_ok rfl
          · exact .of_ok rfl
  | @operation pos op operands each =>
      have ⟨values, evaluated, evaluates⟩ :
          Succeeds (Step.evalAll context scope operands) frame := by
        refine succeeds_evalAll fun past node rest values reached split before => ?_
        subst split
        exact succeeds parts (.operand before)
      dsimp only at failed
      rw [bind_of_ok evaluates] at failed
      cases failed

end Site

/-- A failure names a node, unless the node is missing and it is what comes after it that
fails. -/
def Site.Named (context : Context) (site : Site) (failure : Failure) : Prop :=
  (∃ cause, failure = .located site.node.pos site.node.kind cause) ∨
    (failure = .malformed ∧ ∃ value after last,
      Step.eval context site.scope site.node site.frame = .ok value after ∧
      Step.sweepAfter context site.node after = .error failure last)

theorem Site.Named.settled (named : site.Named context failure) : failure.Settled := by
  rcases named with ⟨cause, rfl⟩ | ⟨rfl, _⟩ <;> nofun

/-- A failure has a node that is to blame for it, and names that node. -/
theorem exists_blamed (site : Site) (filled : site.node.Filled) {last : Frame}
    (failed : Step.eval context site.scope site.node site.frame = .error failure last) :
    ∃ inner, ReflTransGen (Site.Enters context) site inner ∧ inner.Blamed context failure ∧
      inner.Named context failure := by
  induction size : sizeOf site.node using Nat.strong_induction_on
    generalizing site failure last with
  | _ size ih =>
      by_cases parts : site.Unstopped context
      · exact ⟨site, .refl, .own failed parts, .inl (site.located_of_parts filled failed parts)⟩
      · obtain ⟨part, other, enters, stops⟩ : ∃ part other, site.Enters context part ∧
            Site.Stops context site part other := by
          simpa only [Site.Unstopped, not_forall, not_not, exists_prop] using parts
        have blames : ∃ inner, ReflTransGen (Site.Enters context) part inner ∧
            inner.Blamed context other ∧ inner.Named context other := by
          cases stops with
          | eval broken =>
              exact ih _ (size ▸ enters.sizeOf_lt) part (enters.filled filled) broken rfl
          | @sweep _ _ _ _ after _ _ value _ done fails =>
              refine ⟨part, .refl, .swept enters done fails, ?_⟩
              rcases Step.sweepAfter_eq_error fails with named | missing
              · exact .inl named
              · exact .inr ⟨missing, value, after, _, done, fails⟩
        obtain ⟨inner, path, blamed, named⟩ := blames
        -- What fails at the part is passed on, so it is the failure of the whole.
        obtain ⟨_, again⟩ := stops.error enters named.settled
        obtain ⟨rfl, _⟩ := EStateM.Result.error.inj (again.symm.trans failed)
        exact ⟨inner, .head enters path, blamed, named⟩

/-! ## Units -/

theorem Visits.trans {lastId : Nat} (visits : Visits context lastId site)
    (path : ReflTransGen (Site.Enters context) site inner) : Visits context lastId inner := by
  induction path with
  | refl => exact visits
  | tail _ enters ih => exact ih.inside enters

variable {registry : Registry} {summaries : Summaries} {method : Method} {lastId : Nat}

/-- All nodes around one that fails fail in the same way. -/
theorem passed_on (path : ReflTransGen (Site.Enters context) outer site) {last : Frame}
    (failed : Step.eval context site.scope site.node site.frame = .error failure last)
    (settled : failure.Settled) :
    ∃ last, Step.eval context outer.scope outer.node outer.frame = .error failure last := by
  induction path using ReflTransGen.head_induction_on with
  | refl => exact ⟨last, failed⟩
  | head enters _ ih =>
      obtain ⟨_, inside⟩ := ih
      exact Site.Stops.error enters (.eval inside) settled

/-- In the evaluation of a unit, the temporaries after a node can be freed. -/
theorem Visits.sweeps (visits : Visits (.counting registry summaries method) lastId site)
    {value : Option Ref} {after : Frame}
    (done : Step.eval (.counting registry summaries method) site.scope site.node site.frame =
      .ok value after) :
    ∃ last,
      Step.sweepAfter (.counting registry summaries method) site.node after = .ok () last := by
  obtain ⟨held, opened, temporaries, stands⟩ := visits.upkeep
  have kept := ((Eval.upkeep registry summaries method held).eval temporaries opened site.scope
    stands.member site.node stands.answers).after stands.holds done
  obtain ⟨heap, swept, _⟩ := kept.1.sound.sweep
  have swept : Heap.Discipline.counting.sweep after.heap = .ok () heap := swept
  refine ⟨after.withHeap heap, ?_⟩
  rw [Step.sweepAfter, Step.onHeap_of_ok swept]

/-- So a node of a unit that is to blame for a failure fails on its own. -/
theorem Visits.fails (visits : Visits (.counting registry summaries method) lastId site)
    (blamed : site.Blamed (.counting registry summaries method) failure) :
    ∃ last, Step.eval (.counting registry summaries method) site.scope site.node site.frame =
      .error failure last := by
  cases blamed with
  | @own _ _ last failed => exact ⟨last, failed⟩
  | swept _ done refused =>
      obtain ⟨_, swept⟩ := visits.sweeps done
      rw [refused] at swept
      cases swept

/-- A body fails as a block would that has the same statements, and because of one of these. -/
theorem exists_block_of_body {root : ScopeId} {frame last : Frame}
    (failed : body context root frame = .error failure last) :
    ∃ block ∈ context.method.decl.body,
      Step.eval context root block.node frame = .error failure last ∧
      ¬Site.Unstopped context ⟨root, block.node, frame⟩ := by
  obtain ⟨child, opened, opens⟩ : ∃ child opened,
      Step.onMemory (Memory.openChild root) frame = .ok child opened := ⟨_, _, rfl⟩
  unfold body at failed
  rw [bind_of_ok opens] at failed
  cases declared : context.method.decl.body with
  | none =>
      rw [declared] at failed
      cases failed
  | some block =>
      rw [declared] at failed
      cases finished : Step.block context child block.stmts opened with
      | ok _ reached =>
          dsimp only at failed
          rw [bind_of_ok finished] at failed
          cases failed
      | error other reached =>
          dsimp only at failed
          rw [bind_of_error finished] at failed
          cases failed
          refine ⟨block, rfl, ?_, fun parts => ?_⟩
          · rw [Block.node, Step.eval, bind_of_ok opens]
            exact bind_of_error finished
          · obtain ⟨_, _, succeeds⟩ := Site.succeeds_block parts opens
            rw [finished] at succeeds
            cases succeeds

/-- Every failure of a body names the innermost node that fails.  The evaluation has come to
that node, and to nothing inside of it that would have failed before; no node around it puts
its own name on the failure. -/
theorem blamed_of_body {entry : Entry} {memory : Memory} {last : Frame}
    (entered : enter Heap.Discipline.counting method (.ofHeap (.startingAfter lastId)) =
      .ok entry memory)
    (filled : ∀ block ∈ method.decl.body, block.node.Filled)
    (failed : body (.counting registry summaries method) entry.root (entry.frame memory) =
      .error failure last) :
    ∃ site cause, Visits (.counting registry summaries method) lastId site ∧
      site.Blamed (.counting registry summaries method) failure ∧
      failure = .located site.node.pos site.node.kind cause ∧
      ∀ outer, ReflTransGen (Site.Enters (.counting registry summaries method)) outer site →
        ∃ last, Step.eval (.counting registry summaries method) outer.scope outer.node outer.frame =
          .error failure last := by
  obtain ⟨block, declared, whole, stopped⟩ := exists_block_of_body failed
  obtain ⟨site, path, blamed, named⟩ :=
    exists_blamed ⟨entry.root, block.node, entry.frame memory⟩ (filled block declared) whole
  have visits : Visits (.counting registry summaries method) lastId site := by
    rcases path.cases_head with rfl | ⟨stmt, enters, path⟩
    · -- It is not the block itself, since that fails because of a statement.
      cases blamed with
      | own _ parts => exact (stopped parts).elim
      | swept _ done =>
          rw [whole] at done
          cases done
    · exact .trans (.stmt entered declared enters) path
  obtain ⟨_, fails⟩ := visits.fails blamed
  rcases named with ⟨cause, located⟩ | ⟨_, _, _, _, done, _⟩
  · exact ⟨site, cause, visits, blamed, located, fun outer around =>
      passed_on around fails (by rw [located]; nofun)⟩
  · rw [fails] at done
    cases done

/-- A method with a call of a method that there is not, inside of other nodes. -/
def stray : MethodDecl :=
  .plain "stray" [
    .block 1 [.ret 2 [.operation 3 "+" [.literal 3 "1" false, .new 4 "Cell" ""
      [("next", .call 5 "" "nowhere" [])]]]]]

/-- The only method of a class. -/
def straying : Context :=
  .counting (.ofProgram ⟨[⟨0, "Cell", "", [⟨0, "Cell", ["next"]⟩], [stray]⟩]⟩) ∅
    (.ofDecl "Cell" stray)

/-- How the body of a unit fails, if it does. -/
def breakdown? (context : Context) (lastId : Nat) : Option Failure :=
  match enter context.rules context.method (.ofHeap (.startingAfter lastId)) with
  | .error _ _ => none
  | .ok entry memory =>
      match body context entry.root (entry.frame memory) with
      | .error failure _ => some failure
      | .ok _ _ => none

theorem blamed_of_body_stray :
    ∃ site, Visits straying 0 site ∧ site.node.pos = 5 ∧ site.node.kind = .call ∧
      site.Blamed straying (.located 5 .call (.noMethod ⟨"Cell", "nowhere"⟩)) := by
  have shown : breakdown? straying 0 = some (.located 5 .call (.noMethod ⟨"Cell", "nowhere"⟩)) := by
    decide +kernel
  unfold breakdown? at shown
  split at shown
  next => cases shown
  next entry memory entered =>
    split at shown
    next failure last failed =>
      cases shown
      have inside : (Node.new 4 "Cell" "" [("next", .call 5 "" "nowhere" [])]).Filled :=
        .new (List.forall_mem_singleton.2 (.call nofun))
      have filled : ∀ block ∈ stray.body, block.node.Filled := by
        rintro _ ⟨⟩
        refine .block (List.forall_mem_singleton.2 (.block (List.forall_mem_singleton.2 ?_)))
        refine .ret (List.forall_mem_singleton.2 (.operation (List.forall_mem_cons.2 ?_)))
        exact ⟨.literal, List.forall_mem_singleton.2 inside⟩
      obtain ⟨site, cause, visits, blamed, located, _⟩ := blamed_of_body entered filled failed
      obtain ⟨position, kind, _⟩ := Failure.located.inj located
      exact ⟨site, visits, position.symm, kind.symm, blamed⟩
    next => cases shown

end Eval

end Custody
