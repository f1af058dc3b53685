import Custody.Proofs.Eval.Following
import Custody.Proofs.Eval.Visits

/-!
# What a record passes through

The recorded evaluation of a unit comes to every site that its evaluation comes to: it has the
frame of the site then, it evaluates the node there, and what it writes down meanwhile stays in
the record.  If it goes on to the end of the body, so did the evaluation of that node.
-/

namespace Custody.Eval

open Code

/-! ## On the way -/

section Passages

variable {α β γ : Type} {whole : Recorder α} {part : Recorder β} {inner : Recorder γ}
variable {journal middle there : Journal}

/-- A recorder comes to another one.  What is written down by the end of that one stays, and if
all goes well, so does that one. -/
structure Passes (whole : Recorder α) (journal : Journal) (part : Recorder β) (there : Journal) :
    Prop where
  stays : (ending (part there)).moves <+: (ending (whole journal)).moves
  succeeds : ∀ result last, whole journal = .ok result last →
    ∃ answer next, part there = .ok answer next

namespace Passes

theorem refl (recorder : Recorder α) (journal : Journal) :
    Passes recorder journal recorder journal :=
  ⟨List.prefix_refl _, fun result last done => ⟨result, last, done⟩⟩

theorem trans (outer : Passes whole journal part middle) (deeper : Passes part middle inner there) :
    Passes whole journal inner there where
  stays := deeper.stays.trans outer.stays
  succeeds result last done := by
    obtain ⟨answer, next, finished⟩ := outer.succeeds result last done
    exact deeper.succeeds answer next finished

variable {next : α → Recorder β}

/-- In the first of two parts. -/
theorem before (passes : Passes whole journal inner there) (grows : ∀ result, (next result).Grows) :
    Passes (whole >>= next) journal inner there where
  stays := passes.stays.trans (Recorder.prefix_bind whole grows journal)
  succeeds result last done := by
    obtain ⟨first, middle, finished, _⟩ := bind_eq_ok done
    exact passes.succeeds first middle finished

/-- In the second of two parts. -/
theorem after {result : α} (done : whole journal = .ok result middle)
    (passes : Passes (next result) middle inner there) :
    Passes (whole >>= next) journal inner there where
  stays := by
    rw [bind_of_ok done]
    exact passes.stays
  succeeds answer last finished := by
    rw [bind_of_ok done] at finished
    exact passes.succeeds answer last finished

theorem locate {pos : Int} {kind : Kind} (passes : Passes whole journal inner there) :
    Passes (whole.locate pos kind) journal inner there where
  stays := by
    rw [Recorder.ending_locate]
    exact passes.stays
  succeeds result last done := by
    unfold Recorder.locate at done
    split at done
    next finished =>
      cases done
      exact passes.succeeds result last finished
    next => cases done

end Passes

/-- Elements are gone through in turn: one is evaluated, something is done about its value, and
then come the others. -/
structure Turns {ν : Type} (one : ν → Recorder γ) (all : Nat → List ν → Recorder β) : Prop where
  nil : ∀ index, ∃ result, all index [] = pure result
  cons : ∀ index first, ∃ (settle : γ → Recorder Unit) (join : γ → β → β),
    (∀ value, (settle value).Grows) ∧ ∀ rest, all index (first :: rest) =
      one first >>= fun value => settle value >>= fun _ => join value <$> all (index + 1) rest
  grows : ∀ index elements, (all index elements).Grows

/-- The element after some others is evaluated where these have led to. -/
theorem Turns.passes {ν : Type} {one : ν → Recorder γ} {all : Nat → List ν → Recorder β}
    (turns : Turns one all) (index : Nat) {past rest : List ν} {element : ν} {result : β}
    (done : all index past journal = .ok result there) :
    Passes (all index (past ++ element :: rest)) journal (one element) there := by
  induction past generalizing index journal result with
  | nil =>
      obtain ⟨_, none⟩ := turns.nil index
      rw [none] at done
      cases done
      obtain ⟨settle, join, settles, same⟩ := turns.cons index element
      rw [List.nil_append, same]
      exact (Passes.refl _ _).before fun value =>
        (settles value).bind fun _ => (turns.grows _ _).map _
  | cons first past ih =>
      obtain ⟨settle, join, -, same⟩ := turns.cons index first
      rw [same] at done
      obtain ⟨value, middle, evaluated, done⟩ := bind_eq_ok done
      obtain ⟨_, settled, settles, done⟩ := bind_eq_ok done
      rw [map_eq_pure_bind] at done
      obtain ⟨_, _, others, told⟩ := bind_eq_ok done
      cases told
      rw [List.cons_append, same]
      refine .after evaluated (.after settles ?_)
      rw [map_eq_pure_bind]
      exact (ih _ others).before fun _ => .pure _

namespace Turns

variable (registry : Registry) (summaries : Summaries) (method : Method) (scope : ScopeId)

theorem block :
    Turns (Recorder.eval (.counting registry summaries method) scope)
      (fun _ => Recorder.block (.counting registry summaries method) scope) where
  nil _ := ⟨(), by rw [Recorder.block]⟩
  cons _ stmt := by
    refine ⟨fun _ => .as .sweep (Step.sweepAfter (.counting registry summaries method) stmt),
      fun _ => id, fun _ => ?_, fun rest => ?_⟩
    · exact Recorder.Grows.as _ _
    · rw [Recorder.block]
      simp only [id_map]
  grows _ stmts := (Follows.block scope stmts).grows

theorem evalAll :
    Turns (Recorder.eval (.counting registry summaries method) scope)
      (fun _ => Recorder.evalAll (.counting registry summaries method) scope) where
  nil _ := ⟨[], by rw [Recorder.evalAll]⟩
  cons _ node := by
    refine ⟨fun _ => pure (), List.cons, fun _ => .pure _, fun rest => ?_⟩
    rw [Recorder.evalAll]
    simp only [pure_bind, map_eq_pure_bind]
  grows _ nodes := (Follows.evalAll scope nodes).grows

theorem evalNamed :
    Turns (fun arg => Recorder.eval (.counting registry summaries method) scope arg.2)
      (fun _ => Recorder.evalNamed (.counting registry summaries method) scope) where
  nil _ := ⟨[], by rw [Recorder.evalNamed]⟩
  cons _ arg := by
    refine ⟨fun _ => pure (), List.cons, fun _ => .pure _, fun rest => ?_⟩
    rw [Recorder.evalNamed]
    simp only [pure_bind, map_eq_pure_bind]
  grows _ args := (Follows.evalNamed scope args).grows

theorem attach (pos : Int) (owner : Ref) :
    Turns (fun arg => Recorder.eval (.counting registry summaries method) scope arg.2)
      (Recorder.attach (.counting registry summaries method) scope pos owner) where
  nil _ := ⟨(), by rw [Recorder.attach]⟩
  cons index arg := by
    refine ⟨Recorder.constructAny (.counting registry summaries method) pos owner
      (if arg.1 = "" then "$" ++ toString index else arg.1), fun _ => id, fun value => ?_,
      fun rest => ?_⟩
    · exact (Follows.constructAny pos owner _ value).grows
    · rw [Recorder.attach]
      simp only [id_map]
  grows index args := (Follows.attach scope pos owner index args).grows

theorem declareAll (type : String) :
    Turns (fun arg => Recorder.eval (.counting registry summaries method) scope arg.2)
      (fun _ => Recorder.declareAll (.counting registry summaries method) scope type) where
  nil _ := ⟨(), by rw [Recorder.declareAll]⟩
  cons _ arg := by
    refine ⟨fun value => (fun _ => ()) <$> Recorder.as (.declare scope arg.1 type value)
      (Step.onMemory (Memory.declare .counting scope arg.1 type value)), fun _ => id, fun _ => ?_,
      fun rest => ?_⟩
    · exact (Recorder.Grows.as _ _).map _
    · rw [Recorder.declareAll]
      simp only [id_map, bind_map_left]
  grows _ declarators := (Follows.declareAll scope type declarators).grows

theorem returnAll :
    Turns (Recorder.eval (.counting registry summaries method) scope)
      (fun _ => Recorder.returnAll (.counting registry summaries method) scope) where
  nil _ := ⟨(), by rw [Recorder.returnAll]⟩
  cons _ node := by
    refine ⟨fun value => .make (.counting registry summaries method) (.returned value),
      fun _ => id, fun _ => Recorder.Grows.make _ _, fun rest => ?_⟩
    rw [Recorder.returnAll]
    simp only [id_map]
  grows _ values := (Follows.returnAll scope values).grows

end Turns

end Passages

/-! ## To a site -/

section Sites

variable {registry : Registry} {summaries : Summaries} {method : Method}

/-- Statements before another one lead to it. -/
theorem passes_stmt {α : Type} {scope child : ScopeId} {past rest : List Node} {stmt : Node}
    {reached : Frame} {close : ScopeId → Recorder α} (journal : Journal)
    (closes : ∀ child, (close child).Grows)
    (before : (do
      let child ← Step.onMemory (Memory.openChild scope)
      Step.block (.counting registry summaries method) child past
      return child : Step ScopeId) journal.frame = .ok child reached) :
    ∃ there, there.frame = reached ∧ journal.Extends (.counting registry summaries method) there ∧
      Passes (do
        let child ← Recorder.as (.openScope scope) (Step.onMemory (Memory.openChild scope))
        Recorder.block (.counting registry summaries method) child (past ++ stmt :: rest)
        close child) journal (Recorder.eval (.counting registry summaries method) child stmt) there := by
  have follows : Follows registry summaries method [] (do
      let child ← Recorder.as (.openScope scope) (Step.onMemory (Memory.openChild scope))
      Recorder.block (.counting registry summaries method) child past
      return child) _ :=
    (Follows.openChild scope).bind fun child => (Follows.block child past).bind fun _ => .pure child
  obtain ⟨there, ran, here, extended⟩ := follows.comes journal before
  refine ⟨there, here, extended, ?_⟩
  obtain ⟨_, opened, opens, ran⟩ := bind_eq_ok ran
  obtain ⟨_, _, evaluated, told⟩ := bind_eq_ok ran
  cases told
  exact .after opens (((Turns.block registry summaries method child).passes 0 evaluated).before
    fun _ => closes child)

/-- The record of a node comes to the nodes right below it. -/
theorem Site.Enters.passes {site inner : Site}
    (enters : site.Enters (.counting registry summaries method) inner) (moves : List Move) :
    ∃ there, there.frame = inner.frame ∧
      Journal.Extends (.counting registry summaries method) ⟨site.frame, moves⟩ there ∧
      Passes (Recorder.eval (.counting registry summaries method) site.scope site.node)
        ⟨site.frame, moves⟩
        (Recorder.eval (.counting registry summaries method) inner.scope inner.node) there := by
  cases enters with
  | @stmt scope child pos past rest stmt frame reached before =>
      rw [Recorder.eval]
      refine passes_stmt ⟨frame, moves⟩ (fun child => ?_) before
      exact (Recorder.Grows.make _ _).locate.bind fun _ => .pure _
  | @element scope pos type name past rest node frame reached before =>
      have follows : Follows registry summaries method [] (do
          let made ← Recorder.allocate type
          Recorder.attach (.counting registry summaries method) scope pos made 0 past) _ :=
        .allocating type fun made => .attach scope pos made 0 past
      obtain ⟨there, ran, same, extended⟩ := follows.comes ⟨_, moves⟩ before
      refine ⟨there, same, extended, ?_⟩
      obtain ⟨made, allocated, allocates, ran⟩ := bind_eq_ok ran
      rw [Recorder.eval]
      refine Passes.locate (.after allocates ?_)
      rw [if_pos rfl]
      exact ((Turns.attach registry summaries method scope pos made).passes 0 ran).before
        fun _ => .pure _
  | @passed scope pos type maker name past rest node frame reached values named before =>
      have follows : Follows registry summaries method [] (do
          let _ ← Recorder.allocate type
          let callee ← Recorder.still (Step.method (.counting registry summaries method)
            ⟨type, constructorMember maker⟩)
          Recorder.still (Step.requireAnalyzed (.counting registry summaries method) callee)
          Recorder.evalNamed (.counting registry summaries method) scope past) _ :=
        (Follows.allocate type).bind fun _ => (Follows.callee _).bind fun callee =>
          (Follows.requireAnalyzed callee).bind fun _ => .evalNamed scope past
      obtain ⟨there, ran, same, extended⟩ := follows.comes ⟨_, moves⟩ before
      refine ⟨there, same, extended, ?_⟩
      obtain ⟨made, allocated, allocates, ran⟩ := bind_eq_ok ran
      obtain ⟨callee, found, finds, ran⟩ := bind_eq_ok ran
      obtain ⟨_, checked, checks, ran⟩ := bind_eq_ok ran
      rw [Recorder.eval]
      refine Passes.locate (.after allocates ?_)
      rw [if_neg named]
      refine .after finds (.after checks ?_)
      refine ((Turns.evalNamed registry summaries method scope).passes 0 ran).before fun values => ?_
      exact (Follows.applyEffects pos callee _ values).lasting.bind fun _ => .pure _
  | @initial scope pos type name past rest node frame reached before =>
      obtain ⟨there, ran, same, extended⟩ :=
        (Follows.declareAll scope type past).comes ⟨_, moves⟩ before
      refine ⟨there, same, extended, ?_⟩
      rw [Recorder.eval]
      exact Passes.locate (((Turns.declareAll registry summaries method scope type).passes 0 ran).before
        fun _ => .pure _)
  | @value scope pos target node frame =>
      refine ⟨⟨frame, moves⟩, rfl, .refl _ _, ?_⟩
      rw [Recorder.eval]
      refine Passes.locate ((Passes.refl _ _).before fun value => ?_)
      cases target with
      | none => exact .throw _
      | some target => exact (Follows.assign pos target value).lasting.bind fun _ => .pure _
  | @result scope pos past rest node frame reached before =>
      obtain ⟨there, ran, same, extended⟩ := (Follows.returnAll scope past).comes ⟨_, moves⟩ before
      refine ⟨there, same, extended, ?_⟩
      rw [Recorder.eval]
      exact ((Turns.returnAll registry summaries method scope).passes 0 ran).before fun _ => .pure _
  | @argument scope pos qualifier member past rest arg frame reached values before =>
      have follows : Follows registry summaries method [] (do
          let type ← Recorder.still (Step.ofRegistry (registry.qualifierType method qualifier))
          let callee ← Recorder.still (Step.method (.counting registry summaries method)
            ⟨type, member⟩)
          let _ ← Recorder.callReceiver (.counting registry summaries method) scope qualifier
          Recorder.still (Step.requireAnalyzed (.counting registry summaries method) callee)
          Recorder.evalAll (.counting registry summaries method) scope past) _ :=
        (Follows.ofRegistry _).bind fun type => (Follows.callee _).bind fun callee =>
          (Follows.callReceiver qualifier).bind fun _ =>
            (Follows.requireAnalyzed callee).bind fun _ => .evalAll scope past
      obtain ⟨there, ran, same, extended⟩ := follows.comes ⟨_, moves⟩ before
      refine ⟨there, same, extended, ?_⟩
      obtain ⟨type, typed, types, ran⟩ := bind_eq_ok ran
      obtain ⟨callee, found, finds, ran⟩ := bind_eq_ok ran
      obtain ⟨receiver, received, receives, ran⟩ := bind_eq_ok ran
      obtain ⟨_, checked, checks, ran⟩ := bind_eq_ok ran
      rw [Recorder.eval]
      refine Passes.locate (.after types (.after finds (.after receives (.after checks ?_))))
      refine ((Turns.evalAll registry summaries method scope).passes 0 ran).before fun values => ?_
      refine (Follows.applyEffects pos callee receiver values).lasting.bind fun result => ?_
      cases result with
      | some result => exact .pure _
      | none =>
          dsimp only
          split
          · exact .pure _
          · exact (Recorder.Grows.allocate _).map _
  | @operand scope pos op past rest operand frame reached values before =>
      obtain ⟨there, ran, same, extended⟩ := (Follows.evalAll scope past).comes ⟨_, moves⟩ before
      refine ⟨there, same, extended, ?_⟩
      rw [Recorder.eval]
      exact ((Turns.evalAll registry summaries method scope).passes 0 ran).before fun _ =>
        (Recorder.Grows.allocate _).map _

/-- The record of a unit comes to every site that its evaluation comes to. -/
theorem Visits.passes {lastId : Nat} {site : Site} {entry : Entry} {memory : Memory}
    (visits : Visits (.counting registry summaries method) lastId site)
    (entered : enter .counting method (.ofHeap (.startingAfter lastId)) = .ok entry memory) :
    ∃ there : Journal, there.frame = site.frame ∧
      (entry.journal memory).Extends (.counting registry summaries method) there ∧
      Passes (Recorder.body (.counting registry summaries method) entry.root) (entry.journal memory)
        (Recorder.eval (.counting registry summaries method) site.scope site.node) there := by
  induction visits with
  | @stmt _ _ block site also declared enters =>
      cases also.symm.trans entered
      have declared : method.decl.body = some block := declared
      obtain ⟨pos, stmts⟩ := block
      cases enters with
      | stmt before =>
          unfold Recorder.body
          simp only [declared]
          exact passes_stmt (entry.journal memory) (fun child => .pure child) before
  | @inside site next _ enters ih =>
      obtain ⟨⟨_, moves⟩, rfl, earlier, passes⟩ := ih
      obtain ⟨there, here, later, deeper⟩ := enters.passes moves
      exact ⟨there, here, earlier.trans later, passes.trans deeper⟩

end Sites

end Custody.Eval
