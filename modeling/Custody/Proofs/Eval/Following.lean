import Custody.Proofs.Eval.Recorder

/-!
# The record is the history

A recorder does to the frame what the evaluation does.  What it writes down is the history of the
frame: the moves are allowed where they are made, and made one after the other they lead to the
frame that the evaluation leaves behind, whether it fails or not.
-/

namespace Custody.Eval

open Code
open Move (Trail perform perform_append)

/-- The moves on from a journal are allowed where they are made, and lead to the later one. -/
def Journal.Extends (context : Context) (journal later : Journal) : Prop :=
  ∃ moves, later.moves = journal.moves ++ moves ∧ Trail context journal.frame moves ∧
    perform context journal.frame moves = later.frame

namespace Journal.Extends

variable {context : Context} {journal middle later : Journal}

theorem refl (context : Context) (journal : Journal) : Extends context journal journal :=
  ⟨[], (List.append_nil _).symm, .nil _ _, rfl⟩

theorem trans (one : Extends context journal middle) (two : Extends context middle later) :
    Extends context journal later := by
  obtain ⟨past, first, earlier, here⟩ := one
  obtain ⟨moves, second, onward, there⟩ := two
  refine ⟨past ++ moves, ?_, earlier.append (here ▸ onward), ?_⟩
  · rw [second, first, List.append_assoc]
  · rw [perform_append, here, there]

theorem reached (extended : Extends context journal later) :
    Reached context journal.frame later.frame := by
  obtain ⟨moves, -, trail, here⟩ := extended
  exact ⟨moves, trail, here⟩

/-- Of two journals that go on from the same one, the longer goes on from the other. -/
theorem between (one : Extends context journal middle) (two : Extends context journal later)
    (longer : middle.moves <+: later.moves) : Extends context middle later := by
  obtain ⟨past, first, _, here⟩ := one
  obtain ⟨moves, second, trail, there⟩ := two
  obtain ⟨more, split⟩ := longer
  obtain rfl : past ++ more = moves := by
    rw [first, second, List.append_assoc] at split
    exact List.append_cancel_left split
  refine ⟨more, split.symm, here ▸ trail.suffix, ?_⟩
  rw [← here, ← perform_append, there]

end Journal.Extends

namespace Recorder

variable {α β : Type}

/-- The outcome of a step without what is written down. -/
def outcome : EStateM.Result Failure Journal α → EStateM.Result Failure Frame α
  | .ok result journal => .ok result journal.frame
  | .error failure journal => .error failure journal.frame

/-- What is written down stays. -/
def Grows (recorder : Recorder α) : Prop :=
  ∀ journal, journal.moves <+: (ending (recorder journal)).moves

theorem ending_locate (pos : Int) (kind : Kind) (recorder : Recorder α) (journal : Journal) :
    ending (locate pos kind recorder journal) = ending (recorder journal) := by
  unfold locate
  cases recorder journal <;> rfl

/-- What the first of two parts writes down stays. -/
theorem prefix_bind (recorder : Recorder α) {next : α → Recorder β}
    (grows : ∀ result, (next result).Grows) (journal : Journal) :
    (ending (recorder journal)).moves <+: (ending ((recorder >>= next) journal)).moves := by
  cases done : recorder journal with
  | ok result middle =>
      rw [bind_of_ok done]
      exact grows result middle
  | error failure middle =>
      rw [bind_of_error done]
      exact List.prefix_refl _

namespace Grows

variable {recorder : Recorder α} {next : α → Recorder β}

theorem pure (result : α) : (Pure.pure result : Recorder α).Grows := fun _ => List.prefix_refl _

theorem bind (first : recorder.Grows) (second : ∀ result, (next result).Grows) :
    (recorder >>= next).Grows :=
  fun journal => (first journal).trans (prefix_bind recorder second journal)

theorem get : (MonadState.get : Recorder Journal).Grows := fun _ => List.prefix_refl _

theorem map (change : α → β) (first : recorder.Grows) : (change <$> recorder).Grows := by
  rw [map_eq_pure_bind]
  exact first.bind fun result => pure _

theorem throw (failure : Failure) : (throw failure : Recorder α).Grows :=
  fun _ => List.prefix_refl _

theorem record (moves : Frame → List Move) (step : Step α) : (Recorder.record moves step).Grows := by
  intro journal
  unfold Recorder.record
  cases step journal.frame <;> exact List.prefix_append _ _

theorem as (move : Move) (step : Step α) : (Recorder.as move step).Grows :=
  record (fun _ => [move]) step

theorem make (context : Context) (move : Move) : (Recorder.make context move).Grows :=
  as move (move.step context)

theorem allocate (type : String) : (Recorder.allocate type).Grows :=
  as (.allocate type) (Step.onHeap (Heap.allocate type false))

theorem locate {pos : Int} {kind : Kind} (grows : recorder.Grows) :
    (recorder.locate pos kind).Grows := by
  intro journal
  rw [ending_locate]
  exact grows journal

end Grows

end Recorder

variable {registry : Registry} {summaries : Summaries} {method : Method}
variable {α β : Type} {temporaries : List Ref}

/-- A recorder does what a step does, and what it writes down is the history of the frame, as
long as the temporaries in hand are new objects of the unit. -/
structure Follows (registry : Registry) (summaries : Summaries) (method : Method)
    (temporaries : List Ref) (recorder : Recorder α) (step : Step α) : Prop where
  same : ∀ journal, Recorder.outcome (recorder journal) = step journal.frame
  grows : recorder.Grows
  extended : ∀ journal : Journal, InHand temporaries journal.frame →
    journal.Extends (.counting registry summaries method) (ending (recorder journal))

namespace Follows

/-! ## How steps are put together -/

variable {recorder : Recorder α} {step : Step α} {next : α → Recorder β} {goOn : α → Step β}

theorem ends (follows : Follows registry summaries method temporaries recorder step)
    (journal : Journal) : (ending (recorder journal)).frame = ending (step journal.frame) := by
  rw [← follows.same journal]
  cases recorder journal <;> rfl

theorem succeeds (follows : Follows registry summaries method temporaries recorder step)
    {journal : Journal} {result : α} {frame : Frame} (done : step journal.frame = .ok result frame) :
    ∃ later, recorder journal = .ok result later ∧ later.frame = frame := by
  have same := follows.same journal
  rw [done] at same
  cases finished : recorder journal with
  | ok other later =>
      rw [finished] at same
      cases same
      exact ⟨later, rfl, rfl⟩
  | error failure later =>
      rw [finished] at same
      cases same

/-- Where a step leads, its record leads, too. -/
theorem comes (follows : Follows registry summaries method [] recorder step) (journal : Journal)
    {result : α} {frame : Frame} (done : step journal.frame = .ok result frame) :
    ∃ later, recorder journal = .ok result later ∧ later.frame = frame ∧
      journal.Extends (.counting registry summaries method) later := by
  obtain ⟨later, ran, here⟩ := follows.succeeds done
  have extended := follows.extended journal nofun
  rw [ran] at extended
  exact ⟨later, ran, here, extended⟩

theorem reached (follows : Follows registry summaries method [] recorder step) {frame next : Frame}
    {result : α} (done : step frame = .ok result next) :
    Reached (.counting registry summaries method) frame next := by
  obtain ⟨later, _, rfl, extended⟩ := follows.comes ⟨frame, []⟩ done
  exact extended.reached

/-- A step that does without temporaries. -/
theorem anyway (follows : Follows registry summaries method [] recorder step) :
    Follows registry summaries method temporaries recorder step where
  same := follows.same
  grows := follows.grows
  extended journal _ := follows.extended journal nofun

/-- What is written down without temporaries stays. -/
theorem lasting (follows : Follows registry summaries method [] recorder step) : recorder.Grows :=
  follows.grows

theorem pure (result : α) :
    Follows registry summaries method temporaries (Pure.pure result) (Pure.pure result) where
  same _ := rfl
  grows _ := List.prefix_refl _
  extended journal _ := .refl _ journal

theorem throw (failure : Failure) :
    Follows registry summaries method temporaries (throw failure : Recorder α) (throw failure) where
  same _ := rfl
  grows _ := List.prefix_refl _
  extended journal _ := .refl _ journal

theorem record {moves : Frame → List Move}
    (allowed : ∀ frame, InHand temporaries frame →
      Trail (.counting registry summaries method) frame (moves frame))
    (ends : ∀ frame, perform (.counting registry summaries method) frame (moves frame) =
      ending (step frame)) :
    Follows registry summaries method temporaries (Recorder.record moves step) step where
  same journal := by
    unfold Recorder.record
    cases step journal.frame <;> rfl
  grows := .record moves step
  extended journal inHand := by
    refine ⟨moves journal.frame, ?_, allowed journal.frame inHand, ?_⟩
    · unfold Recorder.record
      cases step journal.frame <;> rfl
    · rw [ends, Recorder.record]
      cases step journal.frame <;> rfl

theorem still (alone : ∀ frame, ending (step frame) = frame) :
    Follows registry summaries method temporaries (Recorder.still step) step :=
  record (fun _ _ => .nil _ _) fun frame => (alone frame).symm

theorem as {move : Move} (allowed : ∀ frame, InHand temporaries frame → move.Allowed frame)
    (ends : ∀ frame, ending (step frame) =
      ending (move.step (.counting registry summaries method) frame)) :
    Follows registry summaries method temporaries (Recorder.as move step) step :=
  record (fun frame inHand => (Trail.nil _ _).concat (allowed frame inHand))
    fun frame => (ends frame).symm

theorem make (move : Move) (allowed : ∀ frame, InHand temporaries frame → move.Allowed frame) :
    Follows registry summaries method temporaries
      (Recorder.make (.counting registry summaries method) move)
      (move.step (.counting registry summaries method)) :=
  as allowed fun _ => rfl

/-- A step that gets temporaries in hand, and one that needs them. -/
theorem holding {held : α → List Ref}
    (first : Follows registry summaries method temporaries recorder step)
    (inHand : ∀ {journal result middle}, recorder journal = .ok result middle →
      InHand temporaries journal.frame → InHand (held result) middle.frame)
    (second : ∀ result, Follows registry summaries method (held result) (next result)
      (goOn result)) :
    Follows registry summaries method temporaries (recorder >>= next) (step >>= goOn) where
  same journal := by
    have same := first.same journal
    cases done : recorder journal with
    | ok result middle =>
        rw [done] at same
        rw [bind_of_ok done, bind_of_ok same.symm]
        exact (second result).same middle
    | error failure middle =>
        rw [done] at same
        rw [bind_of_error done, bind_of_error same.symm]
        rfl
  grows := first.grows.bind fun result => (second result).grows
  extended journal ready := ending_bind (journal.Extends (.counting registry summaries method))
    (first.extended journal ready) fun result middle done before =>
      before.trans ((second result).extended middle (inHand done ready))

theorem bind (first : Follows registry summaries method temporaries recorder step)
    (second : ∀ result, Follows registry summaries method temporaries (next result) (goOn result)) :
    Follows registry summaries method temporaries (recorder >>= next) (step >>= goOn) := by
  refine first.holding (fun {journal result middle} done inHand => ?_) second
  have extended := first.extended journal inHand
  rw [done] at extended
  exact inHand.reached extended.reached

theorem map (change : α → β) (first : Follows registry summaries method temporaries recorder step) :
    Follows registry summaries method temporaries (change <$> recorder) (change <$> step) := by
  rw [map_eq_pure_bind, map_eq_pure_bind]
  exact first.bind fun result => pure _

theorem get {next : Journal → Recorder β} {goOn : Frame → Step β}
    (second : ∀ journal,
      Follows registry summaries method temporaries (next journal) (goOn journal.frame)) :
    Follows registry summaries method temporaries (MonadState.get >>= next)
      (MonadState.get >>= goOn) where
  same journal := (second journal).same journal
  grows journal := (second journal).grows journal
  extended journal := (second journal).extended journal

theorem locate {pos : Int} {kind : Kind}
    (first : Follows registry summaries method temporaries recorder step) :
    Follows registry summaries method temporaries (recorder.locate pos kind)
      (Step.locate pos kind step) where
  same journal := by
    unfold Recorder.locate Step.locate
    rw [← first.same journal]
    cases recorder journal <;> rfl
  grows := first.grows.locate
  extended journal inHand := by
    rw [Recorder.ending_locate]
    exact first.extended journal inHand

theorem allocate (type : String) :
    Follows registry summaries method temporaries (Recorder.allocate type)
      (Step.onHeap (Heap.allocate type false)) :=
  as (fun _ _ => trivial) fun _ => (ending_discard _ _).symm

theorem openChild (scope : ScopeId) :
    Follows registry summaries method temporaries
      (Recorder.as (.openScope scope) (Step.onMemory (Memory.openChild scope)))
      (Step.onMemory (Memory.openChild scope)) :=
  as (fun _ _ => trivial) fun _ => (ending_discard _ _).symm

/-- An object that is allocated is in hand afterwards. -/
theorem allocating {next : Ref → Recorder β} {goOn : Ref → Step β} (type : String)
    (second : ∀ made, Follows registry summaries method [made] (next made) (goOn made)) :
    Follows registry summaries method temporaries (Recorder.allocate type >>= next)
      (Step.onHeap (Heap.allocate type false) >>= goOn) := by
  refine (allocate type).holding (fun {journal made middle} done _ => ?_) second
  rw [Recorder.allocate, Recorder.as, Recorder.record,
    Step.onHeap_of_ok (Heap.allocate_eq journal.frame.heap type false)] at done
  cases done
  rintro ref (_ | ⟨_, none⟩)
  · rw [Frame.heap_withHeap, Heap.length_objects_extended, Heap.object_extended, if_pos rfl]
    exact ⟨Nat.lt_succ_self _, rfl⟩
  · cases none

/-! ## Objects and names -/

section Access

variable {scope : ScopeId}

theorem ofRegistry (answer : Except Registry.Error α) :
    Follows registry summaries method temporaries (Recorder.still (Step.ofRegistry answer))
      (Step.ofRegistry answer) :=
  still fun frame => by cases answer <;> rfl

theorem lookup? (name : String) :
    Follows registry summaries method temporaries (Recorder.still (Step.lookup? scope name))
      (Step.lookup? scope name) :=
  still fun _ => rfl

theorem receiver :
    Follows registry summaries method temporaries (Recorder.still (Step.receiver scope))
      (Step.receiver scope) := by
  refine still fun frame => ending_bind (· = frame) rfl fun found middle _ here => ?_
  subst here
  cases found <;> rfl

theorem callee (unit : UnitId) :
    Follows registry summaries method temporaries
      (Recorder.still (Step.method (.counting registry summaries method) unit))
      (Step.method (.counting registry summaries method) unit) := by
  refine still fun frame => ending_bind (· = frame) ?_ fun owner middle _ here => ?_
  · cases registry.lookup unit.owner <;> rfl
  · subst here
    cases owner.method? unit.member <;> rfl

theorem requireAnalyzed (callee : Method) :
    Follows registry summaries method temporaries
      (Recorder.still (Step.requireAnalyzed (.counting registry summaries method) callee))
      (Step.requireAnalyzed (.counting registry summaries method) callee) := by
  refine still fun frame => ?_
  unfold Step.requireAnalyzed
  split <;> rfl

theorem read (owner : Ref) (type name : String) :
    Follows registry summaries method temporaries
      (Recorder.read (.counting registry summaries method) owner type name)
      (Step.read (.counting registry summaries method) owner type name) := by
  refine record (fun frame _ => ?_) fun frame => ?_
  · unfold Recorder.reading
    split
    next unsettled =>
      refine (Trail.nil _ _).concat ⟨?_, unsettled.1⟩
      have settled := unsettled.2
      simp only [Frame.isSettled, Bool.or_eq_false_iff, Bool.not_eq_false'] at settled
      exact settled.2
    next => exact .nil _ _
  · unfold Recorder.reading
    split
    next unsettled =>
      rw [Step.read_of_unsettled unsettled.1 unsettled.2, ending_map]
      exact ending_discard _ _
    next known =>
      cases found : frame.heap.field? owner name with
      | some occupant =>
          rw [Step.read_of_field found]
          rfl
      | none =>
          rw [Step.read_of_settled found (by simpa [found] using known)]
          rfl

theorem field (owner : Option Ref) (ownerType name : String) :
    Follows registry summaries method temporaries
      (Recorder.field (.counting registry summaries method) owner ownerType name)
      (Step.field (.counting registry summaries method) owner ownerType name) := by
  rw [Step.field_eq]
  refine (ofRegistry _).bind fun type => ?_
  cases owner with
  | none => exact pure _
  | some owner => exact (read owner type name).bind fun found => pure _

theorem first (name : String) :
    Follows registry summaries method temporaries
      (Recorder.first (.counting registry summaries method) scope name)
      (Step.first (.counting registry summaries method) scope name) := by
  refine (lookup? name).bind fun found => ?_
  cases found with
  | some binding => exact pure _
  | none => exact receiver.bind fun object => field object _ name

theorem follow (names : List String) (place : Option Ref × String) :
    Follows registry summaries method temporaries
      (Recorder.follow (.counting registry summaries method) place names)
      (Step.follow (.counting registry summaries method) place names) := by
  induction names generalizing place with
  | nil => exact pure place
  | cons name rest ih => exact (field place.1 place.2 name).bind ih

theorem path (qualifier : String) :
    Follows registry summaries method temporaries
      (Recorder.path (.counting registry summaries method) scope qualifier)
      (Step.path (.counting registry summaries method) scope qualifier) :=
  (first _).bind (follow _)

theorem reference (target : Reference) :
    Follows registry summaries method temporaries
      (Recorder.reference (.counting registry summaries method) scope target)
      (Step.reference (.counting registry summaries method) scope target) := by
  unfold Recorder.reference Step.reference
  split
  · exact (first _).bind fun place => pure _
  · exact (path _).bind fun place => (field place.1 place.2 _).bind fun found => pure _

theorem store (pos : Int) (owner : Option Ref) (ownerType name : String) (value : Option Ref) :
    Follows registry summaries method temporaries
      (Recorder.store (.counting registry summaries method) pos owner ownerType name value)
      (Step.store (.counting registry summaries method) pos owner ownerType name value) := by
  rw [Step.store_eq]
  refine (ofRegistry _).bind fun _ => ?_
  cases owner with
  | none => exact make (.note _) fun _ _ => trivial
  | some owner => exact make (.store pos owner name value) fun _ _ => trivial

theorem assign (pos : Int) (target : Reference) (value : Option Ref) :
    Follows registry summaries method temporaries
      (Recorder.assign (.counting registry summaries method) scope pos target value)
      (Step.assign (.counting registry summaries method) scope pos target value) := by
  unfold Recorder.assign Step.assign
  split
  · exact (path _).bind fun place => store pos place.1 place.2 _ value
  · split
    · exact make (.skip pos _) fun _ _ => trivial
    · refine get fun journal => ?_
      cases journal.frame.memory.lookup? scope target.member with
      | some binding => exact make (.rebind binding value) fun _ _ => trivial
      | none => exact receiver.bind fun object => store pos object _ _ value

end Access

/-! ## Calls -/

theorem applyArguments (pos : Int) (callee : Method) (receiver : Option Ref)
    (values : List (Option Ref)) (index : Nat) (result : Option Ref) :
    Follows registry summaries method temporaries
      (Recorder.applyArguments (.counting registry summaries method) pos callee receiver index values
        result)
      (Step.applyArguments (.counting registry summaries method) pos callee receiver index values
        result) := by
  induction values generalizing index result with
  | nil => exact pure result
  | cons value rest ih =>
      unfold Recorder.applyArguments Step.applyArguments
      cases callee.paramAt? index with
      | none => exact pure result
      | some param =>
          dsimp only
          cases (summaries.of callee).param callee.unit param.name with
          | error error => exact throw _
          | ok effect =>
              cases effect with
              | unknown => exact throw _
              | passForward => exact ih (index + 1) (result.or value)
              | doesNotChange => exact ih (index + 1) result
              | doesChange =>
                  cases value with
                  | none => exact ih (index + 1) result
                  | some value =>
                      exact (make (.capture pos receiver callee.unit param.name value)
                        fun _ _ => trivial).bind fun _ => ih (index + 1) result

theorem applyEffects (pos : Int) (callee : Method) (receiver : Option Ref)
    (values : List (Option Ref)) :
    Follows registry summaries method temporaries
      (Recorder.applyEffects (.counting registry summaries method) pos callee receiver values)
      (Step.applyEffects (.counting registry summaries method) pos callee receiver values) := by
  refine (applyArguments pos callee receiver values 0 none).bind fun result => ?_
  cases (summaries.of callee).receiver with
  | doesChange => exact (make (.taint pos receiver) fun _ _ => trivial).bind fun _ => pure result
  | passForward => exact pure _
  | doesNotChange => exact pure _
  | unknown => exact pure _

theorem callReceiver {scope : ScopeId} (qualifier : String) :
    Follows registry summaries method temporaries
      (Recorder.callReceiver (.counting registry summaries method) scope qualifier)
      (Step.callReceiver (.counting registry summaries method) scope qualifier) := by
  unfold Recorder.callReceiver Step.callReceiver
  split
  · exact (first _).bind fun place => pure _
  · exact (path _).bind fun place => pure _

theorem constructAny (pos : Int) (owner : Ref) (name : String) (value : Option Ref) :
    Follows registry summaries method [owner]
      (Recorder.constructAny (.counting registry summaries method) pos owner name value)
      (Step.constructAny (.counting registry summaries method) pos owner name value) := by
  cases value with
  | none => exact pure ()
  | some value =>
      exact make (.construct pos owner name value) fun _ inHand => (inHand owner (.head _)).2

/-! ## Nodes -/

mutual

/-- The recorded evaluation of a node follows the evaluation. -/
theorem eval (scope : ScopeId) :
    (node : Node) →
    Follows registry summaries method []
      (Recorder.eval (.counting registry summaries method) scope node)
      (Step.eval (.counting registry summaries method) scope node)
  | .absent => by
      rw [Recorder.eval, Step.eval]
      exact pure none
  | .vacant => by
      rw [Recorder.eval, Step.eval]
      exact throw _
  | .block pos stmts => by
      rw [Recorder.eval, Step.eval]
      refine (openChild scope).bind fun child => ?_
      refine (block child stmts).bind fun _ => ?_
      exact (make (.close child) fun _ _ => trivial).locate.bind fun _ => pure none
  | .literal pos value isNil => by
      rw [Recorder.eval, Step.eval]
      split
      · exact pure none
      · exact (allocate "").map _
  | .reference target => by
      rw [Recorder.eval, Step.eval]
      exact (reference target).locate
  | .new pos type maker args => by
      rw [Recorder.eval, Step.eval]
      refine locate (allocating type fun made => ?_)
      split
      · exact (attach scope pos made 0 args).bind fun _ => pure _
      · refine (callee _).bind fun callee => (requireAnalyzed callee).bind fun _ => ?_
        refine (evalNamed scope args).anyway.bind fun values => ?_
        exact (applyEffects pos callee _ values).bind fun result => pure _
  | .localVar pos type declarators => by
      rw [Recorder.eval, Step.eval]
      exact locate ((declareAll scope type declarators).bind fun _ => pure none)
  | .assign pos target value => by
      rw [Recorder.eval, Step.eval]
      refine locate ((eval scope value).bind fun object => ?_)
      cases target with
      | none => exact throw _
      | some target => exact (assign pos target object).bind fun _ => pure none
  | .ret pos values => by
      rw [Recorder.eval, Step.eval]
      exact (returnAll scope values).bind fun _ => pure none
  | .call pos qualifier member args => by
      rw [Recorder.eval, Step.eval]
      refine locate ((ofRegistry _).bind fun type => (callee _).bind fun callee => ?_)
      refine (callReceiver qualifier).bind fun receiver => (requireAnalyzed callee).bind fun _ => ?_
      refine (evalAll scope args).bind fun values => ?_
      refine (applyEffects pos callee receiver values).bind fun result => ?_
      cases result with
      | some result => exact pure _
      | none =>
          dsimp only
          split
          · exact pure none
          · exact (allocate _).map _
  | .operation pos op operands => by
      rw [Recorder.eval, Step.eval]
      exact (evalAll scope operands).bind fun _ => (allocate "").map _
  | .unsupported pos construct => by
      rw [Recorder.eval, Step.eval]
      exact (make (.skip pos construct) fun _ _ => trivial).bind fun _ => pure none
  | .alien pos kind => by
      rw [Recorder.eval, Step.eval]
      exact (make (.skip pos kind.name) fun _ _ => trivial).bind fun _ => pure none
  termination_by structural node => node

theorem block (scope : ScopeId) :
    (stmts : List Node) →
    Follows registry summaries method []
      (Recorder.block (.counting registry summaries method) scope stmts)
      (Step.block (.counting registry summaries method) scope stmts)
  | [] => by
      rw [Recorder.block, Step.block]
      exact pure ()
  | stmt :: rest => by
      rw [Recorder.block, Step.block]
      refine (eval scope stmt).bind fun _ => Follows.bind (as (fun _ _ => trivial) fun frame => ?_)
        fun _ => block scope rest
      rw [Step.sweepAfter_eq]
      exact Step.ending_reword _ _ frame
  termination_by structural stmts => stmts

theorem evalAll (scope : ScopeId) :
    (nodes : List Node) →
    Follows registry summaries method []
      (Recorder.evalAll (.counting registry summaries method) scope nodes)
      (Step.evalAll (.counting registry summaries method) scope nodes)
  | [] => by
      rw [Recorder.evalAll, Step.evalAll]
      exact pure []
  | node :: rest => by
      rw [Recorder.evalAll, Step.evalAll]
      exact (eval scope node).bind fun value => (evalAll scope rest).bind fun values => pure _
  termination_by structural nodes => nodes

theorem evalNamed (scope : ScopeId) :
    (args : List (String × Node)) →
    Follows registry summaries method []
      (Recorder.evalNamed (.counting registry summaries method) scope args)
      (Step.evalNamed (.counting registry summaries method) scope args)
  | [] => by
      rw [Recorder.evalNamed, Step.evalNamed]
      exact pure []
  | (name, node) :: rest => by
      rw [Recorder.evalNamed, Step.evalNamed]
      exact (eval scope node).bind fun value => (evalNamed scope rest).bind fun values => pure _
  termination_by structural args => args

theorem attach (scope : ScopeId) (pos : Int) (owner : Ref) (index : Nat) :
    (args : List (String × Node)) →
    Follows registry summaries method [owner]
      (Recorder.attach (.counting registry summaries method) scope pos owner index args)
      (Step.attach (.counting registry summaries method) scope pos owner index args)
  | [] => by
      rw [Recorder.attach, Step.attach]
      exact pure ()
  | (name, node) :: rest => by
      rw [Recorder.attach, Step.attach_cons]
      refine (eval scope node).anyway.bind fun value => ?_
      exact (constructAny pos owner _ value).bind fun _ => attach scope pos owner (index + 1) rest
  termination_by structural args => args

theorem declareAll (scope : ScopeId) (type : String) :
    (declarators : List (String × Node)) →
    Follows registry summaries method []
      (Recorder.declareAll (.counting registry summaries method) scope type declarators)
      (Step.declareAll (.counting registry summaries method) scope type declarators)
  | [] => by
      rw [Recorder.declareAll, Step.declareAll]
      exact pure ()
  | (name, node) :: rest => by
      rw [Recorder.declareAll, Step.declareAll]
      exact (eval scope node).bind fun value =>
        Follows.bind (as (fun _ _ => trivial) fun _ => (ending_discard _ _).symm)
          fun _ => declareAll scope type rest
  termination_by structural declarators => declarators

theorem returnAll (scope : ScopeId) :
    (values : List Node) →
    Follows registry summaries method []
      (Recorder.returnAll (.counting registry summaries method) scope values)
      (Step.returnAll (.counting registry summaries method) scope values)
  | [] => by
      rw [Recorder.returnAll, Step.returnAll]
      exact pure ()
  | node :: rest => by
      rw [Recorder.returnAll, Step.returnAll]
      exact (eval scope node).bind fun value =>
        (make (.returned value) fun _ _ => trivial).bind fun _ => returnAll scope rest
  termination_by structural values => values

end

/-! ## Units -/

theorem body (root : ScopeId) :
    Follows registry summaries method []
      (Recorder.body (.counting registry summaries method) root)
      (Eval.body (.counting registry summaries method) root) := by
  refine (openChild root).bind fun inner => ?_
  cases method.decl.body with
  | none => exact pure inner
  | some block => exact (Follows.block inner block.stmts).bind fun _ => pure inner

/-- The recorded evaluation of a unit follows the evaluation. -/
theorem evaluate (root : ScopeId) :
    Follows registry summaries method []
      (Recorder.evaluate (.counting registry summaries method) root)
      (Eval.evaluate (.counting registry summaries method) root) := by
  refine (body root).bind fun inner => get fun journal => ?_
  refine Follows.bind (record (fun frame _ => ?_) fun frame => ?_) fun _ => pure _
  · exact trail_leaveMoves _ root inner frame
  · exact perform_leaveMoves _ root inner frame

end Follows

end Custody.Eval
