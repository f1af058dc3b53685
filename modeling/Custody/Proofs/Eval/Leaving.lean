import Custody.Proofs.Eval.Upkeep
import Custody.Proofs.Heap.Ledger

/-!
# Leaving a unit

A unit that is left gives up all its references: those of its scopes, those of the
caller and that of its sink.  Nothing of this fails.  What is left then are the objects
that lie on cycles of fields at the end of the body, and those to which such cycles lead.

This holds as long as removed objects own nothing at the end of the body, which is
exactly when the counts of the live objects are the references there are.  A class that
declares a field under the name of a capture can upset it: a call may then let an object
give up itself, its last holder, for an argument.
-/

namespace Custody

namespace Heap

open Relation

variable {heap : Heap}

theorem Indexed.size_ne_zero_iff (indexed : heap.Indexed) :
    heap.size ≠ 0 ↔ ∃ ref, heap.Live ref := by
  simp only [indexed.live_iff]
  constructor
  · intro some
    obtain ⟨⟨id, ref⟩, listed⟩ := List.exists_mem_of_length_pos (Nat.pos_of_ne_zero some)
    exact ⟨ref, (indexed.live.1 (Table.find?_eq_some_iff.2 listed)).1⟩
  · rintro ⟨ref, present⟩
    have listed := Table.find?_eq_some_iff.1 (indexed.live.2 ⟨present, rfl⟩)
    exact Nat.ne_of_gt (List.length_pos_of_mem listed)

/-- Something is held by a cycle exactly if there is one. -/
theorem exists_heldByCycle_iff :
    (∃ ref, heap.HeldByCycle ref) ↔ ∃ point, TransGen heap.Owns point point :=
  ⟨fun ⟨_, point, cycle, _⟩ => ⟨point, cycle⟩, fun ⟨point, cycle⟩ => ⟨point, point, cycle, .refl⟩⟩

end Heap

namespace Eval

open Code Heap Relation

variable {registry : Registry} {summaries : Summaries} {method : Method} {lastId : Nat}
variable {memory next : Memory} {held : List Ref} {opened : List ScopeId} {root inner : ScopeId}
variable {frame : Frame} {entry : Entry}

/-! ## Entering -/

theorem sound_bindParams {params : List Param} {tracked : List Tracked}
    (sound : memory.Sound held opened) (member : root ∈ opened)
    (bound : bindParams .counting root params memory = .ok tracked next) :
    next.Sound (tracked.map (·.object) ++ held) opened := by
  induction params generalizing memory held tracked with
  | nil =>
      cases bound
      exact sound
  | cons param rest ih =>
      have raised : (holding memory param.type true).Sound (memory.heap.objects.length :: held)
          opened :=
        (sound.withNew param.type true).hold (released_withNew memory param.type true)
      rw [bindParams, bind_of_ok (memory.allocate_withNew .heap param.type true),
        bind_of_ok (ref_withNew memory param.type true)] at bound
      obtain ⟨_, _, declared, bound⟩ := bind_eq_ok bound
      obtain ⟨others, _, later, bound⟩ := bind_eq_ok bound
      cases bound
      have kept := raised.declare member param.name param.type (some memory.heap.objects.length)
      rw [declared] at kept
      refine (ih kept.1 later).congr fun ref => ?_
      simp only [List.map_cons, List.count_append, List.count_cons, Tracked.new, List.cons_append]
      omega

theorem sound_enter
    (entered : enter .counting method (.ofHeap (.startingAfter lastId)) = .ok entry memory) :
    memory.Sound (entry.params.map (·.object) ++ [entry.sink]) [entry.root] := by
  have start : (opened lastId).Sound [] [0] := (Memory.Sound.ofHeap lastId).openScope []
  rw [enter, bind_of_ok (openRoot_eq lastId),
    bind_of_ok ((opened lastId).allocate_withNew .heap method.owner true)] at entered
  obtain ⟨_, bound, declared, entered⟩ := bind_eq_ok entered
  rw [bind_of_ok (bound.allocate_withNew .heap "" false),
    bind_of_ok (ref_withNew bound "" false)] at entered
  obtain ⟨params, _, later, entered⟩ := bind_eq_ok entered
  cases entered
  have received := (start.withNew method.owner true).declare (.head _) this method.owner
    (some (opened lastId).heap.objects.length)
  rw [declared] at received
  have sink : (holding bound "" false).Sound [bound.heap.objects.length] [0] :=
    (received.1.withNew "" false).hold (released_withNew bound "" false)
  exact sound_bindParams sink (.head _) later

theorem Bare.modest {heap : Heap} (bare : Bare heap) : Modest 0 [] heap where
  tidy ref _ := Table.ext fun name => bare ref name
  named owner callee param number found := by
    rw [bare] at found
    cases found
  unheld ref member := by cases member

theorem upkeep_enter
    (entered : enter .counting method (.ofHeap (.startingAfter lastId)) = .ok entry memory) :
    Upkeep registry (entry.params.map (·.object) ++ [entry.sink]) [entry.root] []
      (entry.frame memory) := by
  obtain ⟨_, _, same, _, begun, _⟩ := exists_enter method lastId
  rw [entered] at same
  cases same
  exact ⟨sound_enter entered, rfl, fun _ _ noted => (by cases noted), fun _ => begun.bare.modest⟩

/-! ## The body -/

/-- The body of a unit keeps up the frame, and does not release anything twice. -/
theorem meets_body (registry : Registry) (summaries : Summaries)
    (entered : enter .counting method (.ofHeap (.startingAfter lastId)) = .ok entry memory) :
    Meets (·.isDoubleRelease = false)
      (fun inner => Upkeep registry (entry.params.map (·.object) ++ [entry.sink])
        [inner, entry.root] [])
      (body (.counting registry summaries method) entry.root (entry.frame memory)) :=
  (upkeep registry summaries method _).body entry.root (answersAll_upkeep _ _ _ _ _) _
    (upkeep_enter entered)

/-! ## Leaving -/

theorem runAll_of_done {action : Memory.Action Unit} (done : action memory = .ok () next)
    (rest : List (Memory.Action Unit)) : runAll (action :: rest) memory = runAll rest next := by
  simp only [runAll, done]

/-- The caller and the frame give up what they hold. -/
theorem exists_runAll_unref {before : Heap} (objects : List Ref)
    (rest : List (Memory.Action Unit)) (unwinds : before.Unwinds memory.heap (objects ++ held)) :
    ∃ next, runAll (objects.map (fun object =>
        Memory.onHeap .heap (Discipline.counting.unref (some object))) ++ rest) memory =
          runAll rest next ∧
      before.Unwinds next.heap held := by
  induction objects generalizing memory with
  | nil => exact ⟨memory, rfl, unwinds⟩
  | cons object others ih =>
      obtain ⟨heap, dropped, later⟩ := Heap.Unwinds.unref unwinds
      have done : Memory.onHeap .heap (Discipline.counting.unref (some object)) memory =
          .ok () { memory with heap } := by
        simp only [Memory.onHeap, Discipline.counting, dropped]
      have later : before.Unwinds ({ memory with heap } : Memory).heap (others ++ held) := later
      obtain ⟨next, ran, ends⟩ := ih later
      refine ⟨next, ?_, ends⟩
      rw [List.map_cons, List.cons_append, runAll_of_done done, ran]

theorem drops_eq (context : Context) (root inner : ScopeId) (frame : Frame) :
    drops context root inner frame =
      Memory.close context.rules inner :: Memory.close context.rules root ::
        ((frame.params.map (·.object) ++ [frame.sink]).map (fun object =>
          Memory.onHeap .heap (context.rules.unref (some object))) ++
        [Memory.onHeap .heap context.rules.sweep]) := by
  simp [drops, Function.comp_def]

/-- The frame of a unit that has been left. -/
def leftWith (method : Method) (frame : Frame) (memory : Memory) : Frame :=
  { frame with
    memory
    log := if memory.heap.size = 0 then frame.log
      else frame.log ++ [.objectsLeft method.unit memory.heap.size] }

theorem leave_eq (context : Context) (root inner : ScopeId) (frame : Frame) :
    leave context root inner frame =
      match runAll (drops context root inner frame) frame.memory with
      | (errors, memory) =>
          if errors.isEmpty then .ok () (leftWith context.method frame memory)
          else .error (.plain (.leave errors)) (leftWith context.method frame memory) := rfl

/-- A unit is left without failure, and then nobody holds anything. -/
theorem exists_leave {temporaries : List Ref}
    (upkeep : Upkeep registry held [inner, root] temporaries frame) :
    ∃ last, leave (.counting registry summaries method) root inner frame =
        .ok () (leftWith method frame last) ∧
      frame.heap.Unwinds last.heap [] ∧ last.heap.Thrifty := by
  obtain ⟨middle, closed, first, second, unwinds⟩ := upkeep.sound.unwinds
  rw [← upkeep.watched, ← List.append_nil (_ ++ _)] at unwinds
  obtain ⟨dropped, ran, unwinds⟩ := exists_runAll_unref _
    [Memory.onHeap .heap Discipline.counting.sweep] unwinds
  obtain ⟨heap, swept, unwinds, thrifty⟩ := unwinds.sweep upkeep.sound.indexed
  have done : Memory.onHeap .heap Discipline.counting.sweep dropped = .ok () { dropped with heap } := by
    simp only [Memory.onHeap, Discipline.counting, swept]
  have all : runAll (drops (.counting registry summaries method) root inner frame) frame.memory =
      ([], { dropped with heap }) := by
    rw [drops_eq, runAll_of_done first, runAll_of_done second, ran, runAll_of_done done]
    rfl
  refine ⟨{ dropped with heap }, ?_, unwinds, thrifty⟩
  rw [leave_eq, all]
  rfl

/-! ## Units -/

/-- The unit is entered, its body ends in the first frame, and it is left in the second. -/
structure Completes (context : Context) (lastId : Nat) (entry : Entry) (inner : ScopeId)
    (frame last : Frame) : Prop where
  finished : ∃ memory,
    enter context.rules context.method (.ofHeap (.startingAfter lastId)) = .ok entry memory ∧
      body context entry.root (entry.frame memory) = .ok inner frame
  left : leave context entry.root inner frame = .ok () last

/-- The count of every live object is the number of bindings of the two scopes that hold
it, and of fields of live objects, with one more for every parameter that it was passed
in for, and one if it is the sink. -/
def Entry.Counts (entry : Entry) (inner : ScopeId) (frame : Frame) : Prop :=
  ∀ ref, frame.heap.Live ref →
    (frame.heap.object ref).count =
      (frame.memory.boundIn [inner, entry.root]).count ref + frame.heap.liveSlots ref +
        (entry.params.map (·.object)).count ref + if ref = entry.sink then 1 else 0

/-- Counts are exact as long as removed objects own nothing, and only then. -/
theorem Entry.counts_iff_tidy {temporaries : List Ref}
    (upkeep : Upkeep registry (entry.params.map (·.object) ++ [entry.sink]) [inner, entry.root]
      temporaries frame) : entry.Counts inner frame ↔ frame.heap.Tidy := by
  have owned := upkeep.sound.owned
  have counted : ∀ ref, (frame.heap.object ref).count =
      (frame.memory.boundIn [inner, entry.root]).count ref + frame.heap.fieldValues.count ref +
        (entry.params.map (·.object)).count ref + if ref = entry.sink then 1 else 0 := by
    intro ref
    have count : (frame.heap.object ref).count = _ := owned.balanced.count ref
    rw [references, show frame.memory.heap.pending = [] from owned.settled, List.count_nil,
      List.count_append, List.count_append, upkeep.sound.perm_bound.count_eq,
      List.count_singleton] at count
    simp only [beq_iff_eq, eq_comm (a := entry.sink)] at count
    change _ = _ + (frame.heap.fieldValues.count ref + 0) at count
    omega
  constructor
  · intro counts
    refine tidy_of_liveSlots upkeep.sound.indexed owned.balanced fun ref live => ?_
    have exact := counts ref live
    have count := counted ref
    change frame.heap.liveSlots ref = frame.heap.fieldValues.count ref
    omega
  · intro tidy ref _
    have slots : frame.heap.liveSlots ref = frame.heap.fieldValues.count ref :=
      Books.liveSlots_eq upkeep.sound.indexed tidy ref
    rw [slots]
    exact counted ref

/-- What is left of a tidy heap are its cycles and what they lead to, and they are noted. -/
theorem left_iff_heldByCycle {temporaries : List Ref} {last : Memory}
    (upkeep : Upkeep registry held [inner, root] temporaries frame) (tidy : frame.heap.Tidy)
    (unwinds : frame.heap.Unwinds last.heap []) (thrifty : last.heap.Thrifty) :
    (∀ ref, last.heap.Live ref ↔ frame.heap.HeldByCycle ref) ∧
      ((∃ unit live, .objectsLeft unit live ∈ (leftWith method frame last).log) ↔
        ∃ point, TransGen frame.heap.Owns point point) := by
  have indexed := unwinds.lasts Indexed.stable.lasting upkeep.sound.indexed
  have left : ∀ ref, last.heap.Live ref ↔ frame.heap.HeldByCycle ref := by
    intro ref
    rw [indexed.live_iff]
    exact unwinds.present_iff thrifty upkeep.sound.owned.balanced tidy
  refine ⟨left, ?_⟩
  have noted : (∃ unit live, .objectsLeft unit live ∈ (leftWith method frame last).log) ↔
      last.heap.size ≠ 0 := by
    unfold leftWith
    dsimp only
    split
    next none =>
      refine ⟨fun ⟨unit, live, earlier⟩ => (upkeep.quiet unit live earlier).elim, ?_⟩
      exact fun some => (some none).elim
    next some =>
      exact ⟨fun _ => some, fun _ => ⟨method.unit, _, List.mem_append_right _ (.head _)⟩⟩
  rw [noted, indexed.size_ne_zero_iff, ← exists_heldByCycle_iff]
  exact exists_congr left

theorem log_of_run {context : Context} {last : Frame} {owner : Class}
    (known : context.registry.lookup context.method.owner = .ok owner)
    (entered : enter context.rules context.method (.ofHeap (.startingAfter lastId)) =
      .ok entry memory)
    (finished : body context entry.root (entry.frame memory) = .ok inner frame)
    (left : leave context entry.root inner frame = .ok () last) :
    (run context lastId).log = last.log := by
  unfold run
  simp only [known, entered, evaluate_of_ok finished left]

/-- The evaluation of a unit releases nothing twice.  If it has a result, the counts at
the end of its body are exact exactly if removed objects own nothing there; then what is
left of the unit are the cycles at the end of its body and all they lead to, and objects
are noted as left exactly if there is a cycle.  Removed objects own nothing if no class
declares a field under the name of a capture. -/
theorem run_leaves_cycles (registry : Registry) (summaries : Summaries) (method : Method)
    (lastId : Nat) :
    (∀ failure, (run (.counting registry summaries method) lastId).result = .error failure →
      ∀ cause ∈ failure.cause?, cause.isDoubleRelease = false) ∧
    ∀ result, (run (.counting registry summaries method) lastId).result = .ok result →
      ∃ entry inner frame last,
        Completes (.counting registry summaries method) lastId entry inner frame last ∧
        result = frame.result ∧
        (entry.Counts inner frame ↔ frame.heap.Tidy) ∧
        (frame.heap.Tidy →
          (∀ ref, last.heap.Live ref ↔ frame.heap.HeldByCycle ref) ∧
          ((∃ unit live, .objectsLeft unit live ∈
              (run (.counting registry summaries method) lastId).log) ↔
            ∃ point, TransGen frame.heap.Owns point point)) ∧
        (registry.Unreserved → frame.heap.Tidy) := by
  constructor
  · intro failure failed
    cases run_eq_error failed with
    | unknown error =>
        rintro _ ⟨⟩
        rfl
    | entry refused =>
        obtain ⟨_, _, entered, _⟩ := exists_enter method lastId
        cases entered.symm.trans refused
    | body entered broken =>
        have ends := meets_body registry summaries entered
        rw [broken] at ends
        exact ends
    | leave entered finished refused =>
        have ends := meets_body registry summaries entered
        rw [finished] at ends
        obtain ⟨_, left, _⟩ := exists_leave ends
        cases left.symm.trans refused
  · intro result done
    obtain ⟨_, known, entry, memory, inner, frame, last, entered, finished, left, rfl⟩ :=
      run_eq_ok done
    have ends := meets_body registry summaries entered
    rw [finished] at ends
    obtain ⟨memory, also, unwinds, thrifty⟩ := exists_leave ends
    cases left.symm.trans also
    refine ⟨entry, inner, frame, _, ⟨⟨_, entered, finished⟩, left⟩, rfl, ?_, ?_, ?_⟩
    · exact Entry.counts_iff_tidy ends
    · intro tidy
      rw [log_of_run known entered finished left]
      exact left_iff_heldByCycle ends tidy unwinds thrifty
    · exact fun unreserved => (ends.modest unreserved).tidy

/-- A method that lets two new objects own each other, and one of them an argument. -/
def entwine : MethodDecl where
  pos := 0
  name := "entwine"
  params := [⟨0, "other", "Cell", false⟩]
  result := ""
  isConstructor := false
  valueReceiver := false
  body := some ⟨0, [
    .localVar 1 "Cell" [("first", .new 1 "Cell" "" []), ("second", .new 1 "Cell" "" [])],
    .assign 2 (some ⟨2, "first", "next"⟩) (.reference ⟨2, "", "second"⟩),
    .assign 3 (some ⟨3, "second", "next"⟩) (.reference ⟨3, "", "first"⟩),
    .assign 4 (some ⟨4, "second", "item"⟩) (.reference ⟨4, "", "other"⟩)]⟩

/-- Objects with two fields. -/
def pairs : Registry :=
  .ofProgram ⟨[⟨0, "Cell", "", [⟨0, "Cell", ["next", "item"]⟩], [entwine]⟩]⟩

/-- The argument is held by the caller, by its binding and by a field. -/
def entwined : Result where
  effects := .ofList [("other", .doesChange)]
  receiver := .doesNotChange
  changes := .ofList [("other", 4)]
  heap := [⟨1, 1, "Cell", []⟩, ⟨2, 1, "", []⟩, ⟨3, 3, "Cell", []⟩, ⟨4, 2, "Cell", ["next"]⟩,
    ⟨5, 2, "Cell", ["item", "next"]⟩]
  skipped := []

theorem run_leaves_cycles_entwine :
    pairs.Unreserved ∧
      (run (.counting pairs ∅ (.ofDecl "Cell" entwine)) 0).result = .ok entwined ∧
      (run (.counting pairs ∅ (.ofDecl "Cell" entwine)) 0).log =
        [.objectsLeft ⟨"Cell", "entwine"⟩ 3] ∧
      ∃ entry inner frame last,
        Completes (.counting pairs ∅ (.ofDecl "Cell" entwine)) 0 entry inner frame last ∧
        entwined = frame.result ∧ entry.Counts inner frame ∧
        (∀ ref, last.heap.Live ref ↔ frame.heap.HeldByCycle ref) ∧
        ∃ point, TransGen frame.heap.Owns point point := by
  have unreserved : pairs.Unreserved := unreserved_of_names (by decide +kernel)
  have logged : (run (.counting pairs ∅ (.ofDecl "Cell" entwine)) 0).log =
      [.objectsLeft ⟨"Cell", "entwine"⟩ 3] := by decide +kernel
  obtain ⟨entry, inner, frame, last, completes, told, counts, left, tidy⟩ :=
    (run_leaves_cycles pairs ∅ (.ofDecl "Cell" entwine) 0).2 entwined (by decide +kernel)
  have left := left (tidy unreserved)
  exact ⟨unreserved, by decide +kernel, logged, entry, inner, frame, last, completes, told,
    counts.2 (tidy unreserved), left.1, left.2.1 ⟨_, _, by rw [logged]; exact .head _⟩⟩

/-- A method that keeps its second argument. -/
def keep : MethodDecl where
  pos := 0
  name := "keep"
  params := [⟨0, "other", "Cell", false⟩, ⟨0, "item", "Cell", false⟩]
  result := ""
  isConstructor := false
  valueReceiver := false
  body := some ⟨0, []⟩

/-- The name under which the first object that is kept is held. -/
def kept : String := Step.captureField ⟨"Cell", "keep"⟩ "item" 1

/-- A method with a new object that holds itself under that name and is given up while
it is the receiver of a call. -/
def hollow : MethodDecl where
  pos := 0
  name := "hollow"
  params := [⟨0, "passed", "Cell", false⟩]
  result := ""
  isConstructor := false
  valueReceiver := false
  body := some ⟨0, [
    .localVar 1 "Cell" [("own", .new 1 "Cell" "" [])],
    .assign 2 (some ⟨2, "own", kept⟩) (.reference ⟨2, "", "own"⟩),
    .call 3 "own" "keep" [.assign 3 (some ⟨3, "", "own"⟩) (.literal 3 "" true),
      .reference ⟨3, "", "passed"⟩]]⟩

/-- A class that declares the name of a capture. -/
def reserving : Context :=
  .counting (.ofProgram ⟨[⟨0, "Cell", "", [⟨0, "Cell", [kept]⟩], [keep, hollow]⟩]⟩)
    (.ofList [(⟨"Cell", "keep"⟩,
      ⟨.ofList [("other", .doesNotChange), ("item", .doesChange)], .doesNotChange⟩)])
    (.ofDecl "Cell" hollow)

/-- Where the body of a unit ends. -/
def endOfBody? (context : Context) (lastId : Nat) : Option (Entry × ScopeId × Frame) :=
  match enter context.rules context.method (.ofHeap (.startingAfter lastId)) with
  | .error _ _ => none
  | .ok entry memory =>
      match body context entry.root (entry.frame memory) with
      | .error _ _ => none
      | .ok inner frame => some (entry, inner, frame)

theorem Completes.endOfBody? {context : Context} {last : Frame}
    (completes : Completes context lastId entry inner frame last) :
    endOfBody? context lastId = some (entry, inner, frame) := by
  obtain ⟨memory, entered, finished⟩ := completes.finished
  simp only [Eval.endOfBody?, entered, finished]

/-- The object that was passed in is live and has one reference too many, though every
owner is newer than what it owns. -/
def Overcounted (entry : Entry) (inner : ScopeId) (frame : Frame) : Prop :=
  (2 < frame.heap.objects.length ∧ frame.heap.isLive (frame.heap.object 2).id = true) ∧
    (frame.heap.object 2).count ≠
      (frame.memory.boundIn [inner, entry.root]).count 2 + frame.heap.liveSlots 2 +
        (entry.params.map (·.object)).count 2 + (if 2 = entry.sink then 1 else 0) ∧
    ∀ owner < frame.heap.objects.length, ∀ value ∈ (frame.heap.object owner).fields.values,
      value < owner

instance (entry : Entry) (inner : ScopeId) (frame : Frame) :
    Decidable (Overcounted entry inner frame) := inferInstanceAs (Decidable (_ ∧ _ ∧ _))

theorem Overcounted.acyclic (overcounted : Overcounted entry inner frame) :
    ¬∃ point, TransGen frame.heap.Owns point point := by
  have older : ∀ owner value, frame.heap.Owns owner value → value < owner := by
    rintro owner value ⟨name, found⟩
    exact overcounted.2.2 owner (lt_of_field? found) value (mem_values_iff_owns.2 ⟨name, found⟩)
  rintro ⟨point, cycle⟩
  have descends : ∀ {first last}, TransGen frame.heap.Owns first last → last < first := by
    intro first last path
    induction path with
    | single owns => exact older _ _ owns
    | tail _ owns ih => exact Nat.lt_trans (older _ _ owns) ih
  exact Nat.lt_irrefl point (descends cycle)

/-- A class that declares the name of a capture can upset the counts: an object is noted
as left though nothing owns itself. -/
theorem not_counts_hollow :
    (∃ result, (run reserving 0).result = .ok result) ∧
      (run reserving 0).log = [.objectsLeft ⟨"Cell", "hollow"⟩ 1] ∧
      ∀ entry inner frame last, Completes reserving 0 entry inner frame last →
        ¬entry.Counts inner frame ∧ ¬∃ point, TransGen frame.heap.Owns point point := by
  have exceeds : ∀ ends ∈ endOfBody? reserving 0, Overcounted ends.1 ends.2.1 ends.2.2 := by
    decide +kernel
  have returns : (run reserving 0).result.toOption.isSome = true := by decide +kernel
  refine ⟨?_, by decide +kernel, fun entry inner frame last completes => ?_⟩
  · cases done : (run reserving 0).result with
    | ok result => exact ⟨result, rfl⟩
    | error failure =>
        rw [done] at returns
        cases returns
  · have overcounted := exceeds _ completes.endOfBody?
    exact ⟨fun counts => overcounted.2.1 (counts 2 overcounted.1), overcounted.acyclic⟩

end Eval

end Custody
