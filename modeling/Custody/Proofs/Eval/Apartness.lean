import Custody.Proofs.Data.Occurrences
import Custody.Proofs.Eval.Aftermath

/-!
# What the caller may rely on

The record of a unit tells what its evaluation did up to any point of it.  At all these points
what is watched is kept apart: before and after every move, at every site that the evaluation
comes to, after the evaluation of the node there, and at the end of the body, where the result is
read.  So a receiver or a parameter that the result does not call changed was not captured by
then, and nothing that it led to had anything to do with an assignment.
-/

namespace Custody.Eval

open Move

/-- The moves that the evaluation of a unit makes. -/
def history (context : Context) (entry : Entry) (memory : Memory) : List Move :=
  (ending (Recorder.evaluate context entry.root (entry.journal memory))).moves

/-- The journal after the node of a site has been evaluated. -/
def Site.journal (context : Context) (site : Site) (past : List Move) : Journal :=
  ending (Recorder.eval context site.scope site.node ⟨site.frame, past⟩)

/-- Nothing holds the object, and nothing that it led to, itself included, was the owner or the
value of an assignment so far, a capture among them, or was changed by a call. -/
structure Spared (context : Context) (start : Frame) (past : List Move) (frame : Frame)
    (object : Ref) : Prop where
  unowned : ∀ owner name, frame.heap.field? owner name ≠ some object
  untouched : ∀ earlier move, earlier ++ [move] <+: past →
    ∀ touched ∈ move.touched (perform context start earlier),
      ¬(perform context start earlier).heap.Leads object touched

/-- What was passed in, and is neither a copy nor changed by the result, was spared. -/
structure Result.Vouches (context : Context) (entry : Entry) (memory : Memory) (past : List Move)
    (frame : Frame) (result : Result) : Prop where
  receiver : entry.receiver.copied = false → result.receiver ≠ .doesChange →
    Spared context (entry.frame memory) past frame entry.receiver.object
  params : ∀ name effect, result.effects.find? name = some effect → effect ≠ .doesChange →
    ∃ param ∈ entry.params, param.name = name ∧
      (param.copied = false → Spared context (entry.frame memory) past frame param.object)

/-- An evaluation keeps what is watched apart, as its record tells. -/
structure KeepsApart (context : Context) (lastId : Nat) (entry : Entry) (memory : Memory) :
    Prop where
  /-- The record is that of the evaluation. -/
  same : Recorder.outcome (Recorder.evaluate context entry.root (entry.journal memory)) =
    evaluate context entry.root (entry.frame memory)
  ends : perform context (entry.frame memory) (history context entry memory) =
    ending (evaluate context entry.root (entry.frame memory))
  /-- Between any two moves. -/
  always : ∀ past, past <+: history context entry memory →
    Apart context (entry.frame memory) past (perform context (entry.frame memory) past)
  /-- Where the evaluation comes to a node, and where it is done with it. -/
  visits : ∀ site, Visits context lastId site → ∃ past,
    perform context (entry.frame memory) past = site.frame ∧
      Apart context (entry.frame memory) past site.frame ∧
      Recorder.outcome (Recorder.eval context site.scope site.node ⟨site.frame, past⟩) =
        Step.eval context site.scope site.node site.frame ∧
      past <+: (site.journal context past).moves ∧
      (site.journal context past).moves <+: history context entry memory ∧
      Apart context (entry.frame memory) (site.journal context past).moves
        (site.journal context past).frame
  /-- At the end of the body, which the result tells about. -/
  told : ∀ result last, evaluate context entry.root (entry.frame memory) = .ok result last →
    ∃ inner finish, Recorder.body context entry.root (entry.journal memory) = .ok inner finish ∧
      body context entry.root (entry.frame memory) = .ok inner finish.frame ∧
      finish.moves <+: history context entry memory ∧
      result = finish.frame.result ∧
      Apart context (entry.frame memory) finish.moves finish.frame ∧
      result.Vouches context entry memory finish.moves finish.frame

variable {registry : Registry} {summaries : Summaries} {method : Method} {lastId : Nat}
variable {entry : Entry} {memory : Memory}

/-! ## The end of a body -/

theorem Apart.spared {context : Context} {start frame : Frame} {past : List Move}
    (apart : Apart context start past frame) {tracked : Tracked} (member : tracked ∈ frame.tracked)
    (watched : tracked.Watched) : Spared context start past frame tracked.object :=
  ⟨apart.unowned tracked member watched, apart.untouched tracked member watched⟩

/-- The result that is told at the end of a body can be relied on. -/
theorem Apart.vouches {past : List Move} {frame : Frame}
    (apart : Apart (.counting registry summaries method) (entry.frame memory) past frame)
    (reached : Reached (.counting registry summaries method) (entry.frame memory) frame) :
    frame.result.Vouches (.counting registry summaries method) entry memory past frame where
  receiver shared unchanged := by
    have kept : frame.receiver.passed = entry.receiver.passed := reached.passed_receiver
    obtain ⟨-, place, copy⟩ := Tracked.passed_eq_iff.1 kept
    rw [← place]
    exact apart.spared (.head _) ⟨copy.trans shared, unchanged⟩
  params name effect found unchanged := by
    obtain ⟨param, member, same⟩ := List.mem_map.1 (Table.mem_of_find?_ofList found)
    cases same
    have listed : param.passed ∈ entry.params.map (·.passed) := by
      have kept : frame.params.map (·.passed) = entry.params.map (·.passed) := reached.passed_params
      rw [← kept]
      exact List.mem_map_of_mem member
    obtain ⟨first, inside, same⟩ := List.mem_map.1 listed
    obtain ⟨name, place, copy⟩ := Tracked.passed_eq_iff.1 same
    refine ⟨first, inside, name, fun shared => ?_⟩
    rw [place]
    exact apart.spared (.tail _ member) ⟨copy ▸ shared, unchanged⟩

/-! ## Along the record -/

theorem Journal.Extends.trail {context : Context} {journal : Journal}
    (extended : (entry.journal memory).Extends context journal) :
    Trail context (entry.frame memory) journal.moves := by
  obtain ⟨moves, same, trail, -⟩ := extended
  exact (show journal.moves = moves from same) ▸ trail

theorem Journal.Extends.leads {context : Context} {journal : Journal}
    (extended : (entry.journal memory).Extends context journal) :
    perform context (entry.frame memory) journal.moves = journal.frame := by
  obtain ⟨moves, same, -, here⟩ := extended
  exact (show journal.moves = moves from same) ▸ here

/-- A trail from the entry of a unit keeps what is watched apart after each of its moves. -/
theorem Move.Trail.apart {past moves : List Move}
    (trail : Trail (.counting registry summaries method) (entry.frame memory) moves)
    (entered : enter .counting method (.ofHeap (.startingAfter lastId)) = .ok entry memory)
    (within : past <+: moves) :
    Apart (.counting registry summaries method) (entry.frame memory) past
      (perform (.counting registry summaries method) (entry.frame memory) past) := by
  obtain ⟨_, _, also, _, bare, sinkInside, sinkOwn⟩ := exists_enter method lastId
  cases entered.symm.trans also
  exact (trail.guarded (.entry _ bare sinkInside sinkOwn) within).apart

theorem Journal.Extends.apart {journal : Journal}
    (extended : (entry.journal memory).Extends (.counting registry summaries method) journal)
    (entered : enter .counting method (.ofHeap (.startingAfter lastId)) = .ok entry memory) :
    Apart (.counting registry summaries method) (entry.frame memory) journal.moves
      journal.frame := by
  rw [← extended.leads]
  exact extended.trail.apart entered (List.prefix_refl _)

/-- What is written down in the body stays in the record of the unit. -/
theorem prefix_history (context : Context) (entry : Entry) (memory : Memory) :
    (ending (Recorder.body context entry.root (entry.journal memory))).moves <+:
      history context entry memory :=
  Recorder.prefix_bind _ (fun _ => Recorder.Grows.get.bind fun _ =>
    (Recorder.Grows.record _ _).bind fun _ => .pure _) _

theorem keepsApart_of_enter
    (entered : enter .counting method (.ofHeap (.startingAfter lastId)) = .ok entry memory) :
    KeepsApart (.counting registry summaries method) lastId entry memory := by
  have follows : Follows registry summaries method [] _ _ := .evaluate entry.root
  have whole := follows.extended (entry.journal memory) nofun
  constructor
  · exact follows.same (entry.journal memory)
  · exact whole.leads.trans (follows.ends (entry.journal memory))
  · exact fun past within => whole.trail.apart entered within
  · intro site visits
    obtain ⟨⟨_, past⟩, rfl, earlier, passes⟩ := visits.passes entered
    have here : Follows registry summaries method [] _ _ := .eval site.scope site.node
    have later := here.extended ⟨site.frame, past⟩ nofun
    exact ⟨past, earlier.leads, earlier.apart entered, here.same _, here.grows ⟨_, past⟩,
      passes.stays.trans (prefix_history _ entry memory), (earlier.trans later).apart entered⟩
  · intro result last done
    obtain ⟨inner, frame, finished, rest⟩ := bind_eq_ok done
    obtain ⟨_, _, _, told⟩ := bind_eq_ok (show (do
      leave (.counting registry summaries method) entry.root inner
      return frame.result : Step Result) frame = _ from rest)
    cases told
    obtain ⟨finish, ran, rfl, extended⟩ := (Follows.body entry.root).comes (entry.journal memory)
      finished
    have stays := prefix_history (.counting registry summaries method) entry memory
    rw [ran] at stays
    have apart := extended.apart entered
    exact ⟨inner, finish, ran, finished, stays, rfl, apart, apart.vouches extended.reached⟩

/-- Every unit can be entered, and its evaluation keeps what is watched apart. -/
theorem evaluate_apart (registry : Registry) (summaries : Summaries) (method : Method)
    (lastId : Nat) :
    ∃ entry memory,
      enter .counting method (.ofHeap (.startingAfter lastId)) = .ok entry memory ∧
      KeepsApart (.counting registry summaries method) lastId entry memory := by
  obtain ⟨entry, memory, entered, _⟩ := exists_enter method lastId
  exact ⟨entry, memory, entered, keepsApart_of_enter entered⟩

end Custody.Eval
