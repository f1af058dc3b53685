import Custody.Proofs.Heap.Balance
import Custody.Proofs.Heap.Chains
import Custody.Proofs.Heap.Index

/-!
# Renumbering

Identifiers only tell objects apart.  If all identifiers of a heap are moved by
the same distance, every operation does the same as before and leaves behind the
heap it would have left, renumbered.  Only the words of an error show the
difference.
-/

namespace Custody

/-- Move all keys of a table by a distance. -/
def Table.renumber {α : Type} (distance : Nat) (table : Table Nat α) : Table Nat α where
  entries := table.entries.map fun (key, value) => (key + distance, value)
  ascending := by
    refine List.pairwise_map.2 (table.ascending.imp fun less => ?_)
    rw [Nat.compare_eq_lt] at less ⊢
    exact Nat.add_lt_add_right less distance

namespace Table

variable {α : Type} {distance : Nat}

theorem compare_add (left right distance : Nat) :
    compare (left + distance) (right + distance) = compare left right := by
  simp only [Nat.compare_eq_ite_lt, Nat.add_lt_add_iff_right]

@[simp] theorem values_renumber (table : Table Nat α) :
    (table.renumber distance).values = table.values := by
  simp [values, renumber, Function.comp_def]

theorem eq_of_entries_eq {left right : Table Nat α} (same : left.entries = right.entries) :
    left = right := by
  cases left
  cases right
  cases same
  rfl

theorem erase_renumber (table : Table Nat α) (key : Nat) :
    (table.renumber distance).erase (key + distance) = (table.erase key).renumber distance := by
  refine eq_of_entries_eq ?_
  simp only [erase, renumber, List.filter_map]
  congr 1
  refine List.filter_congr fun entry _ => ?_
  simp only [Function.comp_apply, compare_add]

theorem insert_renumber (table : Table Nat α) (key : Nat) (value : α) :
    (table.renumber distance).insert (key + distance) value =
      (table.insert key value).renumber distance := by
  refine eq_of_entries_eq ?_
  simp only [insert, renumber]
  induction table.entries with
  | nil => rfl
  | cons entry rest ih =>
      simp only [put, List.map_cons, compare_add]
      cases compare key entry.1 with
      | lt => rfl
      | eq => rfl
      | gt => simp only [List.map_cons, ih]

end Table

/-- Move the identifier of an object. -/
def Object.renumber (distance : Nat) (object : Object) : Object :=
  { object with id := object.id + distance }

namespace Heap

/-- Move all identifiers of a heap. -/
def renumber (distance : Nat) (heap : Heap) : Heap where
  objects := heap.objects.map (.renumber distance)
  live := heap.live.renumber distance
  lastId := heap.lastId + distance
  pending := heap.pending

variable {heap : Heap} {distance : Nat} {ref owner value : Ref} {name : String}

@[simp] theorem length_objects_renumber :
    (heap.renumber distance).objects.length = heap.objects.length := by
  simp [renumber]

@[simp] theorem pending_renumber : (heap.renumber distance).pending = heap.pending := rfl

theorem object_renumber_of_lt (inside : ref < heap.objects.length) :
    (heap.renumber distance).object ref = (heap.object ref).renumber distance := by
  simp [object, renumber, List.getD_eq_getElem?_getD, inside]

theorem object_renumber_of_le (outside : heap.objects.length ≤ ref) :
    (heap.renumber distance).object ref = heap.object ref := by
  rw [object_of_le outside, object_of_le (by simpa using outside)]

/-- All but the identifier of an object stays. -/
theorem object_renumber_congr {β : Type} (view : Object → β)
    (same : ∀ object : Object, view (object.renumber distance) = view object) (ref : Ref) :
    view ((heap.renumber distance).object ref) = view (heap.object ref) := by
  rcases Nat.lt_or_ge ref heap.objects.length with inside | outside
  · rw [object_renumber_of_lt inside, same]
  · rw [object_renumber_of_le outside]

@[simp] theorem released_renumber (ref : Ref) :
    ((heap.renumber distance).object ref).released = (heap.object ref).released :=
  object_renumber_congr Object.released (fun _ => rfl) ref

@[simp] theorem count_renumber (ref : Ref) :
    ((heap.renumber distance).object ref).count = (heap.object ref).count :=
  object_renumber_congr Object.count (fun _ => rfl) ref

@[simp] theorem fields_renumber (ref : Ref) :
    ((heap.renumber distance).object ref).fields = (heap.object ref).fields :=
  object_renumber_congr Object.fields (fun _ => rfl) ref

@[simp] theorem isExternal_renumber (ref : Ref) :
    ((heap.renumber distance).object ref).isExternal = (heap.object ref).isExternal :=
  object_renumber_congr Object.isExternal (fun _ => rfl) ref

@[simp] theorem field?_renumber (owner : Ref) (name : String) :
    (heap.renumber distance).field? owner name = heap.field? owner name := by
  rw [field?, field?, fields_renumber]

@[simp] theorem isReleased_renumber (object : Option Ref) :
    (heap.renumber distance).isReleased object = heap.isReleased object := by
  cases object with
  | none => rfl
  | some ref => exact released_renumber ref

theorem reaches_renumber (source target : Ref) :
    (heap.renumber distance).reaches source target = heap.reaches source target := by
  have same : (heap.renumber distance).Owns = heap.Owns := by
    funext owner value
    simp only [Owns, field?_renumber]
  rw [Bool.eq_iff_iff, reaches_iff, reaches_iff, Leads, Leads, same]

theorem update_renumber (change : Object → Object)
    (commutes : ∀ object : Object,
      change (object.renumber distance) = (change object).renumber distance) (ref : Ref) :
    (heap.renumber distance).update ref change = (heap.update ref change).renumber distance := by
  simp only [update, renumber, Heap.mk.injEq, and_true]
  refine List.ext_getElem? fun place => ?_
  rw [List.getElem?_modify, List.getElem?_map, List.getElem?_map, List.getElem?_modify]
  cases heap.objects[place]? with
  | none => rfl
  | some object =>
      by_cases here : ref = place
      · simp [here, commutes]
      · simp [here]

theorem remove_renumber (inside : ref < heap.objects.length) :
    (heap.renumber distance).remove ref = (heap.remove ref).renumber distance := by
  have updated : (heap.renumber distance).update ref .bury =
      (heap.update ref .bury).renumber distance := update_renumber .bury (fun _ => rfl) ref
  have id : ((heap.renumber distance).object ref).id = (heap.object ref).id + distance := by
    rw [object_renumber_of_lt inside]
    rfl
  simp only [remove, id, fields_renumber]
  rw [updated]
  simp only [renumber, Table.erase_renumber]

theorem extended_renumber (type : String) (isExternal : Bool) :
    (heap.renumber distance).extended type isExternal =
      (heap.extended type isExternal).renumber distance := by
  have next : heap.lastId + distance + 1 = heap.lastId + 1 + distance := by omega
  simp only [extended, renumber, next, Table.insert_renumber, List.map_append, List.length_map]
  rfl

/-! ## Operations -/

/-- The outcomes of an operation on a heap and on the renumbered one. -/
abbrev Renumbered {α : Type} (distance : Nat) (left right : EStateM.Result Error Heap α) : Prop :=
  Mirrored (renumber distance) left right

theorem renumbered_allocate (heap : Heap) (distance : Nat) (type : String) (isExternal : Bool) :
    Renumbered distance (allocate type isExternal heap)
      (allocate type isExternal (heap.renumber distance)) := by
  rw [allocate_eq, allocate_eq, length_objects_renumber, extended_renumber]
  exact ⟨rfl, rfl⟩

theorem renumbered_release (heap : Heap) (distance : Nat) (ref : Ref) :
    Renumbered distance (release ref heap) (release ref (heap.renumber distance)) := by
  have lowered : (heap.renumber distance).update ref .lower =
      (heap.update ref .lower).renumber distance := update_renumber .lower (fun _ => rfl) ref
  unfold release
  simp only [released_renumber, count_renumber]
  split
  · rfl
  next allowed =>
    have present : (heap.object ref).released = false := by
      simp only [Bool.or_eq_true, not_or, Bool.not_eq_true] at allowed
      exact allowed.1
    have inside := lt_of_not_released present
    split
    · rw [lowered, remove_renumber (by simpa using inside)]
      exact ⟨rfl, rfl⟩
    · rw [lowered]
      exact ⟨rfl, rfl⟩

theorem renumbered_drain (heap : Heap) (distance : Nat) :
    Renumbered distance (drain heap) (drain (heap.renumber distance)) := by
  induction heap using drain.induct with
  | case1 heap settled =>
      rw [drain_of_settled settled, drain_of_settled (by simpa using settled)]
      exact ⟨rfl, rfl⟩
  | case2 heap ref rest due next released lighter ih =>
      have also := (renumbered_release { heap with pending := rest } distance ref).of_ok released
      have alsoDue : (heap.renumber distance).pending = ref :: rest := due
      rw [drain_of_released due released, drain_of_released alsoDue also]
      exact ih
  | case3 heap ref rest due error next refused =>
      obtain ⟨other, also⟩ :=
        (renumbered_release { heap with pending := rest } distance ref).of_error refused
      have alsoDue : (heap.renumber distance).pending = ref :: rest := due
      rw [drain_of_refused due refused, drain_of_refused alsoDue also]
      rfl

theorem renumbered_ref (heap : Heap) (distance : Nat) (object : Option Ref) :
    Renumbered distance (Heap.ref object heap) (Heap.ref object (heap.renumber distance)) := by
  cases object with
  | none => exact ⟨rfl, rfl⟩
  | some ref =>
      unfold Heap.ref
      simp only [released_renumber]
      split
      · rfl
      · exact ⟨rfl, update_renumber .raise (fun _ => rfl) ref⟩

theorem renumbered_unref (heap : Heap) (distance : Nat) (object : Option Ref) :
    Renumbered distance (unref object heap) (unref object (heap.renumber distance)) := by
  cases object with
  | none => exact ⟨rfl, rfl⟩
  | some ref =>
      exact (renumbered_release heap distance ref).bind fun _ middle _ =>
        renumbered_drain middle distance

theorem renumbered_acquire (heap : Heap) (distance : Nat) (object : Option Ref) :
    Renumbered distance (acquire object heap) (acquire object (heap.renumber distance)) := by
  cases object with
  | none => exact ⟨rfl, rfl⟩
  | some ref => exact ⟨rfl, update_renumber .raise (fun _ => rfl) ref⟩

theorem renumbered_transfer (heap : Heap) (distance : Nat) (old value : Option Ref) :
    Renumbered distance (transfer old value heap)
      (transfer old value (heap.renumber distance)) := by
  unfold transfer
  simp only [isReleased_renumber]
  split
  · exact ⟨rfl, rfl⟩
  · split
    · rfl
    · refine Mirrored.bind ?_ fun _ middle _ =>
        (renumbered_acquire middle distance value).bind fun _ full _ =>
          renumbered_drain full distance
      cases old with
      | none => exact ⟨rfl, rfl⟩
      | some old => exact renumbered_release heap distance old

theorem renumbered_setField (heap : Heap) (distance : Nat) (owner : Option Ref) (name : String)
    (value : Option Ref) :
    Renumbered distance (setField owner name value heap)
      (setField owner name value (heap.renumber distance)) := by
  cases owner with
  | none => rfl
  | some owner =>
      unfold setField
      simp only [released_renumber, fields_renumber, isReleased_renumber]
      split
      · rfl
      · split
        · exact ⟨rfl, rfl⟩
        · split
          · rfl
          · refine Mirrored.bind ?_ fun _ middle _ => Mirrored.bind ?_ fun _ full _ =>
              renumbered_drain full distance
            · cases (heap.object owner).fields.find? name with
              | none => exact ⟨rfl, rfl⟩
              | some occupant =>
                  exact Mirrored.bind ⟨rfl, update_renumber (.withoutField name) (fun _ => rfl) owner⟩
                    fun _ taken _ => renumbered_release taken distance occupant
            · cases value with
              | none => exact ⟨rfl, rfl⟩
              | some value =>
                  exact Mirrored.bind ⟨rfl, update_renumber (.withField name value) (fun _ => rfl) owner⟩
                    fun _ stored _ => renumbered_acquire stored distance (some value)

theorem discard_renumber (heap : Heap) (distance : Nat) (ref : Ref) :
    (heap.renumber distance).discard ref = (heap.discard ref).renumber distance := by
  unfold discard
  simp only [released_renumber, count_renumber]
  split
  · rfl
  next garbage =>
    simp only [Bool.or_eq_true, not_or, Bool.not_eq_true] at garbage
    exact remove_renumber (lt_of_not_released garbage.1)

theorem renumbered_sweep (heap : Heap) (distance : Nat) :
    Renumbered distance (sweep heap) (sweep (heap.renumber distance)) := by
  have cleared : ∀ (garbage : List Ref) (heap : Heap),
      garbage.foldl discard (heap.renumber distance) =
        (garbage.foldl discard heap).renumber distance := by
    intro garbage
    induction garbage with
    | nil => exact fun _ => rfl
    | cons first rest ih =>
        intro heap
        rw [List.foldl_cons, List.foldl_cons, discard_renumber, ih]
  have same : (heap.renumber distance).live.values = heap.live.values :=
    Table.values_renumber heap.live
  rw [sweep_eq, sweep_eq, same]
  simp only [count_renumber]
  rw [cleared]
  exact renumbered_drain _ distance

/-! ## Snapshots -/

/-- Move the identifier of an object in a snapshot. -/
def ObjectState.renumber (distance : Nat) (state : ObjectState) : ObjectState :=
  { state with id := state.id + distance }

theorem snapshot_renumber (indexed : heap.Indexed) :
    (heap.renumber distance).snapshot = heap.snapshot.map (.renumber distance) := by
  have same : (heap.renumber distance).live.values = heap.live.values :=
    Table.values_renumber heap.live
  rw [snapshot, snapshot, same, List.map_map]
  refine List.map_congr_left fun ref member => ?_
  obtain ⟨⟨id, _⟩, listed, rfl⟩ := List.mem_map.1 member
  have inside := lt_of_not_released (indexed.live.1 (Table.find?_eq_some_iff.2 listed)).1
  dsimp only
  rw [object_renumber_of_lt inside]
  rfl

end Heap

end Custody
