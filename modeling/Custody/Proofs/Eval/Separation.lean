import Custody.Proofs.Eval.Entry

/-!
# Separation

An object that is passed in and not copied is watched as long as its effect is not
a change.  At every point of an evaluation the watched objects are kept apart: no
field holds one of them, and what one of them leads to is a tree of objects that
were made up when they were first read, each owned through the field it was made
up in and by nothing else.  The trees of two watched objects have nothing in
common, and none of them had anything to do with an assignment so far.

The proof keeps `Secluded` for the object of every watched one along the moves of a
trail.  An assignment first marks whatever leads to its owner or its value, so what
is watched afterwards leads to neither; an argument is attached to a new object or
captured by the sink without marking these, but nothing passed in leads to an
object of the unit itself.
-/

namespace Custody.Eval

open Heap Move

/-- The caller may rely on it that the object is not changed. -/
def Tracked.Watched (tracked : Tracked) : Prop :=
  tracked.copied = false ∧ tracked.effect ≠ .doesChange

namespace Move

/-- The owner and the value of an assignment. -/
def operands (frame : Frame) : Move → List Ref
  | store _ owner _ value => owner :: value.toList
  | construct _ owner _ value => [owner, value]
  | capture _ receiver _ _ argument => [receiver.getD frame.sink, argument]
  | _ => []

/-- The owner and the value of an assignment, or the receiver that a call changes. -/
def touched (frame : Frame) (move : Move) : List Ref :=
  match move with
  | taint _ object => object.toList
  | _ => move.operands frame

theorem operands_subset_touched (frame : Frame) (move : Move) :
    move.operands frame ⊆ move.touched frame := by
  cases move with
  | taint => exact List.nil_subset _
  | _ => exact List.Subset.refl _

end Move

/-- An object was the owner or the value of an assignment. -/
def Assigned (context : Context) (start : Frame) (past : List Move) (object : Ref) : Prop :=
  ∃ earlier move next, earlier ++ [move] <+: past ∧
    object ∈ move.operands (perform context start earlier) ∧
    move.step context (perform context start earlier) = .ok () next

/-- An object was made up in a field. -/
def MadeUp (context : Context) (start : Frame) (past : List Move) (object owner : Ref)
    (name : String) : Prop :=
  ∃ earlier type, earlier ++ [.materialize owner type name] <+: past ∧
    object = (perform context start earlier).heap.objects.length

/-- What is watched is kept apart after some moves. -/
structure Apart (context : Context) (start : Frame) (past : List Move) (frame : Frame) : Prop where
  unowned : ∀ tracked ∈ frame.tracked, tracked.Watched → ∀ owner name,
    frame.heap.field? owner name ≠ some tracked.object
  madeUp : ∀ tracked ∈ frame.tracked, tracked.Watched → ∀ object,
    frame.heap.Leads tracked.object object → object ≠ tracked.object →
    (frame.heap.object object).isExternal = true ∧ ¬Assigned context start past object ∧
      ∃ owner name, MadeUp context start past object owner name ∧
        frame.heap.field? owner name = some object ∧
        ∀ other field, frame.heap.field? other field = some object → other = owner ∧ field = name
  closed : ∀ tracked ∈ frame.tracked, tracked.Watched → ∀ object,
    frame.heap.Leads tracked.object object → object ≠ tracked.object → ∀ owner name,
    frame.heap.field? owner name = some object → frame.heap.Leads tracked.object owner
  disjoint : frame.tracked.Pairwise fun left right => left.Watched → right.Watched →
    ∀ object, frame.heap.Leads left.object object → ¬frame.heap.Leads right.object object
  untouched : ∀ tracked ∈ frame.tracked, tracked.Watched → ∀ earlier move,
    earlier ++ [move] <+: past → ∀ object ∈ move.touched (perform context start earlier),
    ¬(perform context start earlier).heap.Leads tracked.object object

/-! ## What is watched -/

namespace Tracked

theorem effect_eq_doesChange_iff (tracked : Tracked) :
    tracked.effect = .doesChange ↔ tracked.changedAt.isSome = true := by
  unfold effect
  split
  next changed => simp [changed]
  next unchanged => split <;> simp [unchanged]

/-- What is watched after a taint was watched before, and does not lead to the
object. -/
theorem watched_taint {heap : Heap} {pos : Int} {object : Ref} {tracked : Tracked}
    (watched : (tracked.taint heap pos object).Watched) :
    tracked.Watched ∧ ¬heap.Leads tracked.object object := by
  unfold taint at watched
  split at watched
  next passed =>
    exfalso
    obtain ⟨shared, unchanged⟩ := watched
    rw [ne_eq, effect_eq_doesChange_iff] at unchanged
    simp [shared, unchanged] at passed
  next =>
    split at watched
    next => exact absurd ((effect_eq_doesChange_iff _).2 rfl) watched.2
    next apart => exact ⟨watched, fun leads => apart (reaches_iff.2 leads)⟩

theorem watched_returned {object : Ref} {tracked : Tracked}
    (watched : (tracked.returned object).Watched) : tracked.Watched := by
  unfold returned at watched
  split at watched
  next =>
    obtain ⟨shared, unchanged⟩ := watched
    rw [ne_eq, effect_eq_doesChange_iff] at unchanged
    exact ⟨shared, fun changed => unchanged ((effect_eq_doesChange_iff tracked).1 changed)⟩
  next => exact watched

end Tracked

/-- The same objects are passed in, and what is watched was watched before. -/
structure Ages (frame next : Frame) : Prop where
  objects : next.tracked.map (·.object) = frame.tracked.map (·.object)
  sink : next.sink = frame.sink
  watched : ∀ tracked ∈ next.tracked, tracked.Watched →
    ∃ before ∈ frame.tracked, before.Watched ∧ before.object = tracked.object

namespace Ages

variable {frame next last : Frame}

theorem of_eq (tracked : next.tracked = frame.tracked) (sink : next.sink = frame.sink) :
    Ages frame next where
  objects := by rw [tracked]
  sink := sink
  watched passed member watched := ⟨passed, by rwa [← tracked], watched, rfl⟩

theorem trans (one : Ages frame next) (two : Ages next last) : Ages frame last where
  objects := two.objects.trans one.objects
  sink := two.sink.trans one.sink
  watched passed member watched := by
    obtain ⟨middle, member, watched, same⟩ := two.watched passed member watched
    obtain ⟨first, member, watched, also⟩ := one.watched middle member watched
    exact ⟨first, member, watched, also.trans same⟩

theorem mapTracked {change : Tracked → Tracked}
    (objects : ∀ tracked, (change tracked).object = tracked.object)
    (watched : ∀ tracked, (change tracked).Watched → tracked.Watched) :
    Ages frame (frame.mapTracked change) where
  objects := by simp [objects]
  sink := rfl
  watched passed member isWatched := by
    rw [Frame.tracked_mapTracked] at member
    obtain ⟨before, inside, rfl⟩ := List.mem_map.1 member
    exact ⟨before, inside, watched before isWatched, (objects before).symm⟩

theorem taint (frame : Frame) (pos : Int) (object : Option Ref) :
    Ages frame (frame.taint pos object) := by
  cases object with
  | none => exact .of_eq rfl rfl
  | some object =>
      exact .mapTracked (Tracked.object_taint frame.heap pos object)
        fun _ watched => (Tracked.watched_taint watched).1

end Ages

theorem not_leads_of_taint {frame : Frame} {pos : Int} {object : Ref} {tracked : Tracked}
    (member : tracked ∈ (frame.taint pos (some object)).tracked) (watched : tracked.Watched) :
    ¬frame.heap.Leads tracked.object object := by
  rw [Frame.taint, Frame.tracked_mapTracked] at member
  obtain ⟨before, _, rfl⟩ := List.mem_map.1 member
  rw [Tracked.object_taint]
  exact (Tracked.watched_taint watched).2

variable {registry : Registry} {summaries : Summaries} {method : Method}

namespace Move

/-- A move passes nothing else in, and only ever ends the watch over an object. -/
theorem ages (move : Move) (frame : Frame) :
    Ages frame (ending (move.step (.counting registry summaries method) frame)) := by
  cases move with
  | allocate type => exact .of_eq rfl rfl
  | materialize owner type name =>
      rw [ending_materialize]
      exact .of_eq rfl rfl
  | store pos owner name value =>
      rw [ending_store]
      exact ((Ages.taint frame pos (some owner)).trans (.taint _ pos value)).trans (.of_eq rfl rfl)
  | construct pos owner name value =>
      rw [ending_construct]
      exact (Ages.taint frame pos (some value)).trans (.of_eq rfl rfl)
  | capture pos receiver callee param argument =>
      rw [ending_capture]
      exact ((Ages.taint frame pos (some argument)).trans (.taint _ pos receiver)).trans
        (.of_eq rfl rfl)
  | taint pos object =>
      rw [step, Step.taint_eq]
      exact .taint frame pos object
  | returned object =>
      cases object with
      | none => exact .of_eq rfl rfl
      | some object =>
          exact .mapTracked (Tracked.object_returned object) fun _ => Tracked.watched_returned
  | openScope parent => exact .of_eq rfl rfl
  | close scope =>
      rw [step, Step.ending_onMemory]
      exact .of_eq rfl rfl
  | declare scope name type object =>
      rw [step, ending_discard, Step.ending_onMemory]
      exact .of_eq rfl rfl
  | rebind binding object =>
      rw [step, Step.ending_onMemory]
      exact .of_eq rfl rfl
  | sweep =>
      rw [step, Step.ending_onHeap]
      exact .of_eq rfl rfl
  | drop object =>
      rw [step, Step.ending_onHeap]
      exact .of_eq rfl rfl
  | skip pos construct => exact .of_eq rfl rfl
  | note entry => exact .of_eq rfl rfl

/-- What is watched after a move leads to nothing that it touches. -/
theorem not_leads_touched {move : Move} {frame : Frame} (allowed : move.Allowed frame)
    (sink : (frame.heap.object frame.sink).isExternal = false)
    (external : ∀ tracked ∈ frame.tracked, tracked.Watched → ∀ object,
      frame.heap.Leads tracked.object object → (frame.heap.object object).isExternal = true)
    {tracked : Tracked}
    (member : tracked ∈
      (ending (move.step (.counting registry summaries method) frame)).tracked)
    (watched : tracked.Watched) :
    ∀ object ∈ move.touched frame, ¬frame.heap.Leads tracked.object object := by
  -- whatever is watched leads to no object of the unit itself
  have own : ∀ object, (frame.heap.object object).isExternal = false →
      ¬frame.heap.Leads tracked.object object := by
    intro object isOwn leads
    obtain ⟨before, inside, wasWatched, same⟩ := (move.ages frame).watched tracked member watched
    rw [← same] at leads
    rw [external before inside wasWatched object leads] at isOwn
    cases isOwn
  -- a second taint leaves watched what does not lead to the object of the first
  have earlier : ∀ pos object second, tracked ∈ ((frame.taint pos (some object)).taint pos
      second).tracked → ¬frame.heap.Leads tracked.object object := by
    intro pos object second later
    obtain ⟨before, inside, wasWatched, same⟩ := (Ages.taint _ pos second).watched tracked later watched
    rw [← same]
    exact not_leads_of_taint inside wasWatched
  have later : ∀ pos first object, tracked ∈ ((frame.taint pos first).taint pos
      (some object)).tracked → ¬frame.heap.Leads tracked.object object := by
    intro pos first object inside
    have apart := not_leads_of_taint inside watched
    rw [Frame.heap_taint] at apart
    exact apart
  cases move with
  | store pos owner name value =>
      rw [ending_store] at member
      rintro object (_ | ⟨_, inside⟩)
      · exact earlier pos owner value member
      · have stored := Option.mem_toList.1 inside
        cases stored
        exact later pos (some owner) object member
  | construct pos owner name value =>
      rw [ending_construct] at member
      rintro object (_ | ⟨_, _ | ⟨_, inside⟩⟩)
      · exact own owner allowed
      · exact not_leads_of_taint member watched
      · cases inside
  | capture pos receiver callee param argument =>
      rw [ending_capture] at member
      rintro object (_ | ⟨_, _ | ⟨_, inside⟩⟩)
      · cases receiver with
        | none => exact own frame.sink sink
        | some receiver => exact later pos (some argument) receiver member
      · exact earlier pos argument receiver member
      · cases inside
  | taint pos object =>
      rw [step, Step.taint_eq] at member
      intro changed inside
      have tainted := Option.mem_toList.1 inside
      cases tainted
      exact not_leads_of_taint member watched
  | _ => exact fun _ inside => by cases inside

end Move

/-! ## Along a trail -/

section History

variable {context : Context} {start : Frame} {past : List Move} {move : Move}

theorem assigned_concat {object : Ref} :
    Assigned context start (past ++ [move]) object ↔
      Assigned context start past object ∨
        object ∈ move.operands (perform context start past) ∧
          ∃ next, move.step context (perform context start past) = .ok () next := by
  constructor
  · rintro ⟨earlier, other, next, within, operand, done⟩
    rcases List.prefix_concat_iff.1 within with same | before
    · obtain ⟨rfl, last⟩ := List.append_inj' same rfl
      cases last
      exact .inr ⟨operand, next, done⟩
    · exact .inl ⟨earlier, other, next, before, operand, done⟩
  · rintro (⟨earlier, other, next, within, operand, done⟩ | ⟨operand, next, done⟩)
    · exact ⟨earlier, other, next, within.trans (List.prefix_append _ _), operand, done⟩
    · exact ⟨past, move, next, List.prefix_refl _, operand, done⟩

theorem MadeUp.concat {object owner : Ref} {name : String}
    (madeUp : MadeUp context start past object owner name) (move : Move) :
    MadeUp context start (past ++ [move]) object owner name := by
  obtain ⟨earlier, type, within, same⟩ := madeUp
  exact ⟨earlier, type, within.trans (List.prefix_append _ _), same⟩

end History

/-- What a trail keeps of the objects that are passed in. -/
structure Guarded (context : Context) (start : Frame) (past : List Move) (frame : Frame) :
    Prop where
  bounded : frame.heap.Bounded
  inside : ∀ tracked ∈ frame.tracked, tracked.object < frame.heap.objects.length
  nodup : (frame.tracked.map (·.object)).Nodup
  sinkInside : frame.sink < frame.heap.objects.length
  sinkOwn : (frame.heap.object frame.sink).isExternal = false
  assigned : ∀ object, Assigned context start past object → object < frame.heap.objects.length
  secluded : ∀ tracked ∈ frame.tracked, tracked.Watched →
    Secluded (MadeUp context start past) (Assigned context start past) frame.heap tracked.object
  untouched : ∀ tracked ∈ frame.tracked, tracked.Watched → ∀ earlier move,
    earlier ++ [move] <+: past → ∀ object ∈ move.touched (perform context start earlier),
    ¬(perform context start earlier).heap.Leads tracked.object object

namespace Guarded

variable {start frame : Frame} {past : List Move} {move : Move}

/-- The owner and the value of an assignment that succeeds are in the store. -/
theorem lt_of_operand (bounded : frame.heap.Bounded) {next : Frame}
    (done : move.step (.counting registry summaries method) frame = .ok () next) :
    ∀ object ∈ move.operands frame, object < frame.heap.objects.length := by
  have set : ∀ {owner name value middle}, middle.heap = frame.heap →
      Step.onHeap (Heap.setField (some owner) name value) middle = .ok () next →
      owner < frame.heap.objects.length ∧ ∀ ref ∈ value, ref < frame.heap.objects.length := by
    intro owner name value middle same done
    cases result : Heap.setField (some owner) name value middle.heap with
    | ok _ heap =>
        rw [same] at result
        exact bounded.lt_of_setField result
    | error error heap =>
        rw [Step.onHeap_of_error result] at done
        cases done
  cases move with
  | store pos owner name value =>
      rw [Move.step, Step.overwrite_eq] at done
      obtain ⟨ownerInside, valueInside⟩ := set (by simp) done
      rintro object (_ | ⟨_, inside⟩)
      · exact ownerInside
      · exact valueInside object (Option.mem_toList.1 inside)
  | construct pos owner name value =>
      rw [Move.step, Step.construct_eq] at done
      obtain ⟨ownerInside, valueInside⟩ := set (by simp) done
      rintro object (_ | ⟨_, _ | ⟨_, inside⟩⟩)
      · exact ownerInside
      · exact valueInside value rfl
      · cases inside
  | capture pos receiver callee param argument =>
      rw [Move.step, Step.capture_eq] at done
      obtain ⟨ownerInside, valueInside⟩ := set (by cases receiver <;> rfl) done
      rintro object (_ | ⟨_, _ | ⟨_, inside⟩⟩)
      · exact ownerInside
      · exact valueInside argument rfl
      · cases inside
  | _ => exact fun _ inside => by cases inside

theorem bounded_step (bounded : frame.heap.Bounded) (move : Move) :
    (ending (move.step (.counting registry summaries method) frame)).heap.Bounded := by
  cases move with
  | allocate type => exact bounded.extended type false
  | materialize owner type name =>
      rw [ending_materialize]
      exact (bounded.extended type true).setField _ _ _
  | store pos owner name value =>
      rw [ending_store]
      exact bounded.setField _ _ _
  | construct pos owner name value =>
      rw [ending_construct]
      exact bounded.setField _ _ _
  | capture pos receiver callee param argument =>
      rw [ending_capture]
      exact bounded.setField _ _ _
  | _ => exact bounded.thins (decays_of_isIdle rfl frame).thins

/-- A move that makes nothing up leaves what leads nowhere near its operands
secluded. -/
theorem secluded_step {origin : Ref → Ref → String → Prop} {assigned : Ref → Prop} {root : Ref}
    (secluded : Secluded origin assigned frame.heap root) (bounded : frame.heap.Bounded)
    (inside : root < frame.heap.objects.length) (allowed : move.Allowed frame)
    (unused : ¬assigned frame.heap.objects.length)
    (apart : ∀ object ∈ move.operands frame, ¬frame.heap.Leads root object) :
    Secluded
      (fun object owner name => origin object owner name ∨
        ∃ type, move = .materialize owner type name ∧ object = frame.heap.objects.length)
      assigned (ending (move.step (.counting registry summaries method) frame)).heap root := by
  have kept : ∀ {heap}, Secluded origin assigned heap root → Secluded
      (fun object owner name => origin object owner name ∨
        ∃ type, move = .materialize owner type name ∧ object = frame.heap.objects.length)
      assigned heap root :=
    fun secluded => secluded.weaken (fun _ _ _ => .inl) fun _ _ => id
  cases move with
  | allocate type => exact kept (secluded.extended bounded inside type false)
  | materialize owner type name =>
      rw [ending_materialize]
      have within := lt_of_isExternal allowed.1
      rcases setField_thins (frame.heap.extended type true) (some owner) name
          (some frame.heap.objects.length) with thins | ⟨_, ⟨⟩, _, _, set⟩
      · exact kept ((secluded.extended bounded inside type true).thins thins)
      · refine ((secluded.materialize bounded inside within unused).thins set).weaken ?_
          fun _ _ => id
        rintro object into field (before | ⟨new, rfl, rfl⟩)
        · exact .inl before
        · exact .inr ⟨type, rfl, new⟩
  | store pos owner name value =>
      rw [ending_store]
      refine kept (secluded.setField name (apart owner (.head _)) fun ref stored => ?_)
      exact apart ref (.tail _ (Option.mem_toList.2 stored))
  | construct pos owner name value =>
      rw [ending_construct]
      refine kept (secluded.setField name (apart owner (.head _)) ?_)
      rintro ref ⟨⟩
      exact apart value (.tail _ (.head _))
  | capture pos receiver callee param argument =>
      rw [ending_capture]
      refine kept (secluded.setField _ (apart _ (.head _)) ?_)
      rintro ref ⟨⟩
      exact apart argument (.tail _ (.head _))
  | _ => exact kept (secluded.thins (decays_of_isIdle rfl frame).thins)

/-- An allowed move keeps what a trail keeps. -/
theorem concat (guarded : Guarded (.counting registry summaries method) start past
      (perform (.counting registry summaries method) start past))
    (allowed : move.Allowed (perform (.counting registry summaries method) start past)) :
    Guarded (.counting registry summaries method) start (past ++ [move])
      (perform (.counting registry summaries method) start (past ++ [move])) := by
  rw [perform_append, perform_singleton]
  generalize current : perform (.counting registry summaries method) start past = frame at *
  have persists : frame.heap.Persists
      (ending (move.step (.counting registry summaries method) frame)).heap := move.persists frame
  have ages : Ages frame (ending (move.step (.counting registry summaries method) frame)) :=
    move.ages frame
  have apart : ∀ tracked ∈ (ending (move.step (.counting registry summaries method) frame)).tracked,
      tracked.Watched → ∀ object ∈ move.touched frame,
      ¬frame.heap.Leads tracked.object object :=
    fun tracked member watched => not_leads_touched allowed guarded.sinkOwn
      (fun passed inside watched _ => (guarded.secluded passed inside watched).isExternal)
      member watched
  have assigned : ∀ object,
      Assigned (.counting registry summaries method) start (past ++ [move]) object →
      object < frame.heap.objects.length := by
    intro object done
    rcases assigned_concat.1 done with before | ⟨operand, next, done⟩
    · exact guarded.assigned object before
    · rw [current] at operand done
      exact lt_of_operand guarded.bounded done object operand
  constructor
  · exact bounded_step guarded.bounded move
  · intro tracked member
    have listed : tracked.object ∈ frame.tracked.map (·.object) := by
      rw [← ages.objects]
      exact List.mem_map_of_mem member
    obtain ⟨before, inside, same⟩ := List.mem_map.1 listed
    rw [← same]
    exact Nat.lt_of_lt_of_le (guarded.inside before inside) persists.length
  · rw [ages.objects]
    exact guarded.nodup
  · rw [ages.sink]
    exact Nat.lt_of_lt_of_le guarded.sinkInside persists.length
  · rw [ages.sink]
    exact (persists.isExternal _ guarded.sinkInside).trans guarded.sinkOwn
  · exact fun object done => Nat.lt_of_lt_of_le (assigned object done) persists.length
  · intro tracked member watched
    have nowhere : ∀ object ∈ move.operands frame, ¬frame.heap.Leads tracked.object object :=
      fun object operand =>
        apart tracked member watched object (operands_subset_touched frame move operand)
    obtain ⟨before, inside, wasWatched, same⟩ := ages.watched tracked member watched
    rw [← same] at nowhere ⊢
    -- nothing that this move assigns is in the tree
    have secluded : Secluded (MadeUp (.counting registry summaries method) start past)
        (Assigned (.counting registry summaries method) start (past ++ [move])) frame.heap
        before.object := by
      refine (guarded.secluded before inside wasWatched).weaken (fun _ _ _ => id) ?_
      intro object leads done
      rcases assigned_concat.1 done with earlier | ⟨operand, _⟩
      · exact earlier
      · rw [current] at operand
        exact absurd leads (nowhere object operand)
    refine (secluded_step secluded guarded.bounded (guarded.inside before inside) allowed
      (fun done => Nat.lt_irrefl _ (assigned _ done)) nowhere).weaken ?_ fun _ _ => id
    rintro object owner name (madeUp | ⟨type, rfl, new⟩)
    · exact madeUp.concat move
    · exact ⟨past, type, List.prefix_refl _, by rw [current]; exact new⟩
  · intro tracked member watched earlier other within object operand
    rcases List.prefix_concat_iff.1 within with same | inside
    · obtain ⟨rfl, last⟩ := List.append_inj' same rfl
      cases last
      rw [current] at operand ⊢
      exact apart tracked member watched object operand
    · obtain ⟨before, isPassed, wasWatched, same⟩ := ages.watched tracked member watched
      rw [← same]
      exact guarded.untouched before isPassed wasWatched earlier other inside object operand

theorem apart {context : Context} (guarded : Guarded context start past frame) :
    Apart context start past frame := by
  constructor
  · exact fun tracked member watched => (guarded.secluded tracked member watched).unowned
  · intro tracked member watched object leads different
    have secluded := guarded.secluded tracked member watched
    obtain ⟨owner, name, madeUp, only⟩ := secluded.sole leads different
    refine ⟨secluded.isExternal leads, secluded.unassigned leads, owner, name, madeUp, ?_, only⟩
    rcases leads.cases_tail with same | ⟨last, _, field, owns⟩
    · exact absurd same.symm different.symm
    · rw [← (only last field owns).1, ← (only last field owns).2]
      exact owns
  · exact fun tracked member watched object leads different owner name =>
      (guarded.secluded tracked member watched).closed leads different
  · refine List.Pairwise.imp_of_mem ?_ (List.pairwise_map.1 guarded.nodup)
    intro left right leftMember rightMember different leftWatched rightWatched object leads
    exact (guarded.secluded left leftMember leftWatched).disjoint
      (guarded.secluded right rightMember rightWatched) different leads
  · exact guarded.untouched

/-- What is passed in is secluded when a unit is entered. -/
theorem entry {entry : Entry} {memory : Memory} {before : Heap} (context : Context)
    (entered : Entered before memory (entry.receiver :: entry.params))
    (sinkInside : entry.sink < memory.heap.objects.length)
    (sinkOwn : (memory.heap.object entry.sink).isExternal = false) :
    Guarded context (entry.frame memory) [] (entry.frame memory) := by
  have never : ∀ object, ¬Assigned context (entry.frame memory) [] object := by
    rintro object ⟨earlier, move, next, within, _⟩
    simp at within
  have bare : Bare (entry.frame memory).heap := entered.bare
  constructor
  · intro owner name value found
    rw [bare owner name] at found
    cases found
  · exact entered.inside
  · exact entered.nodup
  · exact sinkInside
  · exact sinkOwn
  · exact fun object done => absurd done (never object)
  · intro tracked member watched
    have alone : ∀ {object}, (entry.frame memory).heap.Leads tracked.object object →
        object = tracked.object := by
      intro object leads
      rcases leads.cases_head with same | ⟨middle, ⟨name, found⟩, _⟩
      · exact same.symm
      · rw [bare] at found
        cases found
    constructor
    · intro owner name found
      rw [bare owner name] at found
      cases found
    · intro object leads
      rw [alone leads]
      exact entered.isExternal tracked member
    · exact fun _ => never _
    · exact fun leads different => absurd (alone leads) different
  · intro tracked member watched earlier move within
    simp at within

end Guarded

theorem Move.Trail.guarded {start : Frame} {moves : List Move}
    (trail : Trail (.counting registry summaries method) start moves)
    (opening : Guarded (.counting registry summaries method) start [] start)
    {past : List Move} (within : past <+: moves) :
    Guarded (.counting registry summaries method) start past
      (perform (.counting registry summaries method) start past) := by
  induction past using List.reverseRecOn with
  | nil => exact opening
  | append_singleton past move ih =>
      exact (ih ((List.prefix_append past [move]).trans within)).concat (trail past move within)

end Custody.Eval
