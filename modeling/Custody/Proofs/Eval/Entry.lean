import Custody.Proofs.Eval.Moves

/-!
# Entering a unit

A unit can always be entered: nothing that entering does may fail.  The objects of
the receiver, of the parameters and of the sink are new ones and different from
each other, no object owns another yet, and each of them is held.
-/

namespace Custody.Eval

open Heap

variable {memory : Memory} {held : List Ref} {root : ScopeId}

/-- No object of the heap owns another one. -/
def Bare (heap : Heap) : Prop := ∀ owner name, heap.field? owner name = none

theorem Bare.decays {heap next : Heap} (bare : Bare heap) (decays : heap.Decays next) :
    Bare next := by
  intro owner name
  cases found : next.field? owner name with
  | none => rfl
  | some value =>
      have before := decays.thins.field? found
      rw [bare owner name] at before
      cases before

theorem Bare.extended {heap : Heap} (bare : Bare heap) (type : String) (isExternal : Bool) :
    Bare (heap.extended type isExternal) := by
  intro owner name
  rw [field?_extended]
  exact bare owner name

/-- A new object can be bound, whatever the name was bound to before. -/
theorem exists_declare_new (owned : memory.Owned held) (isOpen : (memory.scope root).closed = false)
    (name type : String) {object : Ref} (present : (memory.heap.object object).released = false) :
    ∃ binding next, Memory.declare .counting root name type (some object) memory =
        .ok binding next ∧
      next.Owned held ∧ (next.scope root).closed = false ∧ memory.heap.Decays next.heap := by
  rcases owned.declare root name type (some object) with
    ⟨_, _, _, closed | gone⟩ | ⟨binding, next, done, kept, scopes⟩
  · rw [isOpen] at closed
    cases closed
  · rw [Heap.isReleased, present] at gone
    cases gone
  · have decays := Memory.stable_declare (Decays.stable memory.heap) (.refl memory.heap) root name
      type (some object)
    rw [done] at decays
    exact ⟨binding, next, done, kept, (scopes root).trans isOpen, decays⟩

/-- The memory with a new object that is held besides. -/
def holding (memory : Memory) (type : String) (isExternal : Bool) : Memory :=
  { memory.withNew type isExternal with
    heap := (memory.withNew type isExternal).heap.update memory.heap.objects.length .raise }

theorem released_withNew (memory : Memory) (type : String) (isExternal : Bool) :
    ((memory.withNew type isExternal).heap.object memory.heap.objects.length).released = false := by
  rw [Memory.object_withNew]
  rfl

/-- A new object can be held besides. -/
theorem ref_withNew (memory : Memory) (type : String) (isExternal : Bool) :
    Memory.onHeap .heap (Discipline.counting.ref (some memory.heap.objects.length))
      (memory.withNew type isExternal) = .ok () (holding memory type isExternal) := by
  simp only [Memory.onHeap, Discipline.counting, Heap.ref, released_withNew, Bool.false_eq_true,
    ↓reduceIte]
  rfl

theorem owned_holding (owned : memory.Owned held) (type : String) (isExternal : Bool) :
    (holding memory type isExternal).Owned (memory.heap.objects.length :: held) :=
  (owned.allocate type isExternal).hold (released_withNew memory type isExternal)

theorem decays_holding (memory : Memory) (type : String) (isExternal : Bool) :
    (memory.withNew type isExternal).heap.Decays (holding memory type isExternal).heap :=
  .update .raise

/-- What entering has done so far: the objects are new, held, and owned by none. -/
structure Entered (before : Heap) (memory : Memory) (tracked : List Tracked) : Prop where
  persists : before.Persists memory.heap
  bare : Bare memory.heap
  fresh : ∀ passed ∈ tracked, before.objects.length ≤ passed.object
  inside : ∀ passed ∈ tracked, passed.object < memory.heap.objects.length
  isExternal : ∀ passed ∈ tracked, (memory.heap.object passed.object).isExternal = true
  nodup : (tracked.map (·.object)).Nodup

theorem Entered.earlier {before middle : Heap} {tracked : List Tracked}
    (persists : before.Persists middle) (entered : Entered middle memory tracked) :
    Entered before memory tracked :=
  { entered with
    persists := persists.trans entered.persists
    fresh := fun passed member => Nat.le_trans persists.length (entered.fresh passed member) }

/-- One more object that is passed in, bound before the others. -/
theorem Entered.cons {bound next : Memory} {tracked : List Tracked} {type : String}
    (kept : (memory.withNew type true).heap.Decays bound.heap)
    (entered : Entered bound.heap next tracked) (name : String) (copied : Bool) :
    Entered memory.heap next (.new name memory.heap.objects.length copied :: tracked) := by
  have length : bound.heap.objects.length = memory.heap.objects.length + 1 := by
    rw [kept.length, Memory.withNew, length_objects_extended]
  have persists : (memory.withNew type true).heap.Persists next.heap :=
    .trans (.thins kept.thins) entered.persists
  have stored : memory.heap.objects.length < (memory.withNew type true).heap.objects.length := by
    rw [Memory.withNew, length_objects_extended]
    exact Nat.lt_succ_self _
  constructor
  · exact .trans (.extended memory.heap type true) persists
  · exact entered.bare
  · rintro passed (_ | ⟨_, member⟩)
    · exact Nat.le_refl _
    · have later := entered.fresh passed member
      rw [length] at later
      exact Nat.le_of_succ_le later
  · rintro passed (_ | ⟨_, member⟩)
    · exact Nat.lt_of_lt_of_le stored persists.length
    · exact entered.inside passed member
  · rintro passed (_ | ⟨_, member⟩)
    · refine (persists.isExternal memory.heap.objects.length stored).trans ?_
      rw [Memory.object_withNew]
      rfl
    · exact entered.isExternal passed member
  · refine List.nodup_cons.2 ⟨fun member => ?_, entered.nodup⟩
    obtain ⟨passed, member, same⟩ := List.mem_map.1 member
    have later := entered.fresh passed member
    rw [same, length] at later
    exact absurd later (Nat.not_succ_le_self _)

/-- Parameters can always be bound. -/
theorem exists_bindParams (params : List Code.Param) (owned : memory.Owned held)
    (isOpen : (memory.scope root).closed = false) (bare : Bare memory.heap) :
    ∃ tracked next, bindParams .counting root params memory = .ok tracked next ∧
      next.Owned (tracked.map (·.object) ++ held) ∧ Entered memory.heap next tracked := by
  induction params generalizing memory held with
  | nil =>
      exact ⟨[], memory, rfl, owned, .refl _, bare, by simp, by simp, by simp, by simp⟩
  | cons param rest ih =>
      have raisedOwned := owned_holding owned param.type true
      have raisedOpen : ((holding memory param.type true).scope root).closed = false := isOpen
      have present := raisedOwned.not_released_of_held (.head held)
      obtain ⟨binding, bound, declared, boundOwned, boundOpen, decays⟩ :=
        exists_declare_new raisedOwned raisedOpen param.name param.type present
      have kept := (decays_holding memory param.type true).trans decays
      obtain ⟨tracked, next, done, nextOwned, entered⟩ :=
        ih boundOwned boundOpen ((bare.extended param.type true).decays kept)
      refine ⟨.new param.name memory.heap.objects.length param.isValue :: tracked, next, ?_, ?_,
        entered.cons kept param.name param.isValue⟩
      · rw [bindParams, bind_of_ok (memory.allocate_withNew .heap param.type true),
          bind_of_ok (ref_withNew memory param.type true), bind_of_ok declared, bind_of_ok done]
        rfl
      · refine nextOwned.congr fun ref => ?_
        simp only [List.map_cons, List.count_append, List.count_cons, Tracked.new, List.cons_append]
        omega

/-- The memory in which the receiver of a unit is bound. -/
def opened (lastId : Nat) : Memory := ending (Memory.openRoot (.ofHeap (.startingAfter lastId)))

theorem openRoot_eq (lastId : Nat) :
    Memory.openRoot (.ofHeap (.startingAfter lastId)) = .ok 0 (opened lastId) := rfl

theorem owned_opened (lastId : Nat) : (opened lastId).Owned [] :=
  (Memory.Owned.ofHeap lastId).openScope []

theorem bare_opened (lastId : Nat) : Bare (opened lastId).heap := by
  intro owner name
  cases found : (opened lastId).heap.field? owner name with
  | none => rfl
  | some value => exact absurd (lt_of_field? found) (Nat.not_lt_zero owner)

/-- A unit can always be entered. -/
theorem exists_enter (method : Method) (lastId : Nat) :
    ∃ entry memory, enter .counting method (.ofHeap (.startingAfter lastId)) = .ok entry memory ∧
      memory.Owned (entry.params.map (·.object) ++ [entry.sink]) ∧
      Entered (.startingAfter lastId) memory (entry.receiver :: entry.params) ∧
      entry.sink < memory.heap.objects.length ∧
      (memory.heap.object entry.sink).isExternal = false := by
  obtain ⟨_, bound, declared, boundOwned, boundOpen, decays⟩ :=
    exists_declare_new ((owned_opened lastId).allocate method.owner true)
      (rfl : (((opened lastId).withNew method.owner true).scope 0).closed = false) Code.this
      method.owner (released_withNew (opened lastId) method.owner true)
  have raisedOwned := owned_holding boundOwned "" false
  have raise := decays_holding bound "" false
  have raisedOpen : ((holding bound "" false).scope 0).closed = false := boundOpen
  obtain ⟨params, next, done, nextOwned, entered⟩ := exists_bindParams method.params raisedOwned
    raisedOpen (((((bare_opened lastId).extended method.owner true).decays decays).extended "" false).decays raise)
  have sinkPersists : (bound.withNew "" false).heap.Persists next.heap :=
    .trans (.thins raise.thins) entered.persists
  have sinkInside : bound.heap.objects.length < (bound.withNew "" false).heap.objects.length := by
    rw [Memory.withNew, length_objects_extended]
    exact Nat.lt_succ_self _
  refine ⟨⟨.new Code.this (opened lastId).heap.objects.length method.decl.valueReceiver,
    bound.heap.objects.length, params, 0⟩, next, ?_, nextOwned, ?_, ?_, ?_⟩
  · rw [enter, bind_of_ok (openRoot_eq lastId),
      bind_of_ok ((opened lastId).allocate_withNew .heap method.owner true), bind_of_ok declared,
      bind_of_ok (bound.allocate_withNew .heap "" false), bind_of_ok (ref_withNew bound "" false),
      bind_of_ok done]
    rfl
  · exact (entered.earlier (.trans (.extended bound.heap "" false) (.thins raise.thins))).cons
      decays Code.this method.decl.valueReceiver
  · exact Nat.lt_of_lt_of_le sinkInside sinkPersists.length
  · refine (sinkPersists.isExternal bound.heap.objects.length sinkInside).trans ?_
    rw [Memory.object_withNew]
    rfl

end Custody.Eval
