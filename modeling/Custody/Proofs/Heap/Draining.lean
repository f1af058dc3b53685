import Custody.Proofs.Heap.Decay

/-!
# How long draining takes

Draining releases the first pending object again and again, and a release may add to the
worklist while it is consumed.  Nothing is asked of the heap here: counts may be wrong, fields
may hold objects that have been released, and objects may own each other in cycles.  A count is
only compared with zero and lowered by one, so that in words of fixed width one below zero is no
different from a large one.

A release that is carried out makes the workload smaller by exactly one: it takes one entry from
the worklist, and whatever it adds to the worklist were fields of an object that is released
from then on.  So draining ends after at most as many releases as there are pending entries and
occupied fields of objects that are not released.
-/

namespace Custody.Heap

variable {heap next : Heap} {ref : Ref} {rest : List Ref} {error : Error}

/-! ## Draining with a limit -/

/-- Drain, but give up where a release is due after as many as a limit allows. -/
def drainWithin (limit : Nat) (heap : Heap) : Option (EStateM.Result Error Heap Unit) :=
  match heap.pending with
  | [] => some (.ok () heap)
  | ref :: rest =>
      match limit with
      | 0 => none
      | limit + 1 =>
          match release ref { heap with pending := rest } with
          | .ok () next => drainWithin limit next
          | .error error next => some (.error error { next with pending := [] })

theorem drainWithin_of_settled (settled : heap.pending = []) (limit : Nat) :
    drainWithin limit heap = some (.ok () heap) := by
  unfold drainWithin
  rw [settled]

theorem drainWithin_zero (due : heap.pending = ref :: rest) : drainWithin 0 heap = none := by
  unfold drainWithin
  rw [due]

theorem drainWithin_of_released (due : heap.pending = ref :: rest)
    (released : release ref { heap with pending := rest } = .ok () next) (limit : Nat) :
    drainWithin (limit + 1) heap = drainWithin limit next := by
  rw [drainWithin, due]
  dsimp only
  rw [released]

theorem drainWithin_of_refused (due : heap.pending = ref :: rest)
    (refused : release ref { heap with pending := rest } = .error error next) (limit : Nat) :
    drainWithin (limit + 1) heap = some (.error error { next with pending := [] }) := by
  rw [drainWithin, due]
  dsimp only
  rw [refused]

/-- A release is refused if it would be one too many, and changes nothing then. -/
theorem release_eq_error (refused : release ref heap = .error error next) :
    next = heap ∧ error.isDoubleRelease = true := by
  unfold release at refused
  dsimp only at refused
  split at refused
  · cases refused
    exact ⟨rfl, rfl⟩
  · split at refused <;> cases refused

/-- Nothing is pending after draining, whether a release has been refused or not. -/
theorem pending_drain (heap : Heap) : (ending (drain heap)).pending = [] := by
  induction heap using drain.induct with
  | case1 heap settled =>
      rw [drain_of_settled settled]
      exact settled
  | case2 heap ref rest due next released _ ih =>
      rw [drain_of_released due released]
      exact ih
  | case3 heap ref rest due error next refused =>
      rw [drain_of_refused due refused]
      rfl

/-- The release of the first pending object, when it is carried out, makes the workload smaller
by one. -/
theorem workload_of_released (due : heap.pending = ref :: rest)
    (released : release ref { heap with pending := rest } = .ok () next) :
    next.workload + 1 = heap.workload := by
  rw [workload_release released]
  simp only [workload, slots, due, List.length_cons]
  omega

/-! ## The number of releases -/

/-- Draining takes a number of releases, the last of which may be refused: any lower limit is
too low, any other is high enough, and then draining has ended and nothing is pending.  Either no
release is refused, and the releases and the fields that are left make up the workload, or the
last release was one too many. -/
structure Takes (heap : Heap) (releases : Nat) : Prop where
  within : ∀ limit, drainWithin limit heap = if releases ≤ limit then some (drain heap) else none
  bounded : releases ≤ heap.pending.length + heap.slots
  settled : (ending (drain heap)).pending = []
  ends : (∃ last, drain heap = .ok () last ∧
      releases + last.slots = heap.pending.length + heap.slots) ∨
    ∃ error last, drain heap = .error error last ∧ error.isDoubleRelease = true

namespace Takes

theorem of_settled (settled : heap.pending = []) : heap.Takes 0 where
  within limit := by
    rw [drainWithin_of_settled settled, drain_of_settled settled, if_pos (Nat.zero_le limit)]
  bounded := Nat.zero_le _
  settled := pending_drain heap
  ends := .inl ⟨heap, drain_of_settled settled, by simp [settled]⟩

theorem of_released {releases : Nat} (due : heap.pending = ref :: rest)
    (released : release ref { heap with pending := rest } = .ok () next)
    (takes : next.Takes releases) : heap.Takes (releases + 1) := by
  have load := workload_of_released due released
  have drained := drain_of_released due released
  unfold workload at load
  constructor
  · intro limit
    cases limit with
    | zero => rw [drainWithin_zero due, if_neg (Nat.not_succ_le_zero releases)]
    | succ limit =>
        rw [drainWithin_of_released due released, takes.within, drained]
        simp only [Nat.add_le_add_iff_right]
  · have bounded := takes.bounded
    omega
  · exact pending_drain heap
  · rw [drained]
    rcases takes.ends with ⟨last, done, left⟩ | refused
    · exact .inl ⟨last, done, by omega⟩
    · exact .inr refused

theorem of_refused (due : heap.pending = ref :: rest)
    (refused : release ref { heap with pending := rest } = .error error next) :
    heap.Takes 1 := by
  have drained := drain_of_refused due refused
  constructor
  · intro limit
    cases limit with
    | zero => rw [drainWithin_zero due, if_neg (Nat.not_succ_le_zero 0)]
    | succ limit =>
        rw [drainWithin_of_refused due refused, drained, if_pos (Nat.succ_le_succ limit.zero_le)]
  · simp only [due, List.length_cons]
    omega
  · exact pending_drain heap
  · exact .inr ⟨error, _, drained, (release_eq_error refused).2⟩

end Takes

/-- Draining ends in every heap, after at most as many releases as there are pending entries and
occupied fields of objects that are not released. -/
theorem exists_takes (heap : Heap) : ∃ releases, heap.Takes releases := by
  induction heap using drain.induct with
  | case1 heap settled => exact ⟨0, .of_settled settled⟩
  | case2 heap ref rest due next released _ ih =>
      obtain ⟨releases, takes⟩ := ih
      exact ⟨releases + 1, takes.of_released due released⟩
  | case3 heap ref rest due error next refused => exact ⟨1, .of_refused due refused⟩

/-- Two objects that own each other, with one count too few. -/
def entangled : Heap where
  objects :=
    [{ Object.fresh 1 "A" false with count := 1, fields := .ofList [("next", 1)] },
      { Object.fresh 2 "A" false with count := 1, fields := .ofList [("next", 0)] }]
  live := .ofList [(1, 0), (2, 1)]
  lastId := 2
  pending := [0]

/-- The bound is reached where a cycle is released that is already pending: one entry and two
fields make three releases, and the last one is refused. -/
example : drainWithin 2 entangled = none ∧
    (drainWithin 3 entangled).map (fun outcome => (ending outcome).snapshot) = some [] := by
  decide +kernel

end Custody.Heap
