import Custody.Proofs.Memory.Sessions

/-!
# Refused operations on scopes

Declaring a name and rebinding one are refused where the scope is closed or the object has been
released, and a refusal comes before anything is let go or acquired.  In every session a rebinding
that is refused leaves the memory as it was.  So does a declaration that is refused, but for one
case: a name that the scope already has gets its new type before it is rebound, and keeps that type
when the rebinding is refused.
-/

namespace Custody

/-- Where taking a reference is refused, nothing changes. -/
theorem Heap.ref_refused {heap next : Heap} {object : Option Ref} {error : Heap.Error}
    (refused : Heap.ref object heap = .error error next) : next = heap := by
  cases object with
  | none => cases refused
  | some ref =>
      unfold Heap.ref at refused
      dsimp only at refused
      split at refused <;> cases refused
      rfl

namespace Memory

variable {memory next : Memory} {held : List Ref} {scope : ScopeId} {binding : BindingId}
variable {object : Option Ref} {name type : String} {error : Error}

/-- Whatever scope operation is refused changes nothing. -/
structure Atomic (memory : Memory) : Prop where
  declare : ∀ scope name type object error next,
    Memory.declare .counting scope name type object memory = .error error next → next = memory
  rebind : ∀ binding object error next,
    Memory.rebind .counting binding object memory = .error error next → next = memory

/-- A declaration that gives a name of an open scope another type. -/
def Retypes (memory : Memory) (scope : ScopeId) (name type : String) : Prop :=
  (memory.scope scope).closed = false ∧
    ∃ binding, memory.declaredIn? scope name = some binding ∧ (memory.binding binding).type ≠ type

theorem binding_retype_self (inside : binding < memory.bindings.length) :
    (memory.retype binding type).binding binding = { memory.binding binding with type } := by
  rw [retype, binding_updateBinding memory binding binding _ inside, if_pos rfl]

/-- Giving a binding another type is noticed. -/
theorem retype_eq_self_iff (inside : binding < memory.bindings.length) :
    memory.retype binding type = memory ↔ (memory.binding binding).type = type := by
  constructor
  · intro same
    have retyped : (memory.retype binding type).binding binding = _ := binding_retype_self inside
    rw [same] at retyped
    exact congrArg Binding.type retyped
  · intro same
    have kept : memory.bindings.modify binding (fun held => { held with type }) =
        memory.bindings := by
      refine List.ext_getElem (List.length_modify ..) fun place _ within => ?_
      rw [List.getElem_modify]
      split
      next here =>
        subst here
        simp only [Memory.binding, List.getD_eq_getElem?_getD, List.getElem?_eq_getElem within,
          Option.getD_some] at same
        subst same
        rfl
      next => rfl
    rw [retype, updateBinding, kept]

/-- A variable is not given an object that has been released. -/
theorem rebind_of_released {ref : Ref} (different : (memory.binding binding).object ≠ some ref)
    (released : (memory.heap.object ref).released = true) :
    Memory.rebind .counting binding (some ref) memory =
      .error (.rebind (memory.binding binding).name (.acquire (memory.heap.object ref).label))
        memory := by
  have refused : Heap.Discipline.counting.transfer (memory.binding binding).object (some ref)
      memory.heap = .error (.acquire (memory.heap.object ref).label) memory.heap := by
    change Heap.transfer _ _ memory.heap = _
    rw [Heap.transfer, if_neg different]
    simp only [Heap.isReleased, released, Option.filter_some_pos]
  exact rebind_of_error refused

/-- A name that an open scope has is not given an object that has been released, but it is given
the type that goes with it. -/
theorem declare_of_released {ref : Ref} (inside : binding < memory.bindings.length)
    (isOpen : (memory.scope scope).closed = false)
    (found : memory.declaredIn? scope name = some binding)
    (different : (memory.binding binding).object ≠ some ref)
    (released : (memory.heap.object ref).released = true) :
    Memory.declare .counting scope name type (some ref) memory =
      .error (.rebind (memory.binding binding).name (.acquire (memory.heap.object ref).label))
        (memory.retype binding type) := by
  have retyped : (memory.retype binding type).binding binding = _ := binding_retype_self inside
  have unbound : Memory.rebind .counting binding (some ref) (memory.retype binding type) = _ :=
    rebind_of_released (by rw [retyped]; exact different) released
  rw [retyped] at unbound
  rw [Memory.declare, if_neg (by simp [isOpen]), found]
  dsimp only
  rw [← retype, unbound]
  rfl

namespace Owned

/-- A rebinding that is refused changes nothing. -/
theorem rebind_refused (owned : memory.Owned held)
    (refused : Memory.rebind .counting binding object memory = .error error next) :
    next = memory := by
  rcases Nat.lt_or_ge binding memory.bindings.length with inside | outside
  · rcases owned.rebind inside object with ⟨_, unchanged, _⟩ | ⟨_, _, done, _⟩
    · rw [refused] at unchanged
      cases unchanged
      rfl
    · rw [refused] at done
      cases done
  · -- A binding that has never been declared holds nothing, so nothing is let go.
    have free : (memory.binding binding).object = none := by
      simp [Memory.binding, List.getD_eq_getElem?_getD, outside]
    have listed : memory.heap.Balanced
        ((memory.binding binding).object.toList ++ (memory.bound ++ held)) := by
      rw [free]
      exact owned.balanced
    rcases listed.transfer owned.settled object with ⟨_, unmoved, _⟩ | ⟨heap, moved, _⟩
    · rw [rebind_of_error unmoved] at refused
      cases refused
      rfl
    · rw [rebind_of_ok moved] at refused
      cases refused

/-- A declaration that is refused changes nothing but the type of a name that the scope has. -/
theorem declare_refused (owned : memory.Owned held)
    (refused : Memory.declare .counting scope name type object memory = .error error next) :
    ((memory.scope scope).closed = true ∧ next = memory) ∨
      (memory.scope scope).closed = false ∧
        ((memory.declaredIn? scope name = none ∧ next = memory) ∨
          ∃ binding, memory.declaredIn? scope name = some binding ∧
            next = memory.retype binding type) := by
  unfold Memory.declare at refused
  split at refused
  next closed =>
    cases refused
    exact .inl ⟨closed, rfl⟩
  next isOpen =>
    refine .inr ⟨by simpa using isOpen, ?_⟩
    split at refused
    next binding found =>
      have retyped := owned.updateBinding (fun held => { held with type }) (fun _ => rfl) binding
      refine .inr ⟨binding, found, ?_⟩
      split at refused
      next => cases refused
      next unbound =>
        cases refused
        exact retyped.rebind_refused unbound
    next free =>
      refine .inl ⟨free, ?_⟩
      cases taken : Heap.Discipline.counting.ref object memory.heap with
      | ok _ heap =>
          simp only [Memory.onHeap, taken] at refused
          cases refused
      | error cause heap =>
          simp only [Memory.onHeap, taken] at refused
          cases refused
          rw [Heap.ref_refused taken]

end Owned

/-- In every session a rebinding that is refused changes nothing, and a declaration that is refused
changes nothing unless it gives a name of the scope another type; then it changes that type and
nothing else. -/
theorem refused_unless_retypes (lastId : Nat) (commands : List Command) :
    (∀ binding object error next,
      Memory.rebind .counting binding object (session lastId commands) = .error error next →
        next = session lastId commands) ∧
    ∀ scope name type object error next,
      Memory.declare .counting scope name type object (session lastId commands) =
          .error error next →
        (next = session lastId commands ↔ ¬(session lastId commands).Retypes scope name type) ∧
        (next ≠ session lastId commands → ∃ binding,
          (session lastId commands).declaredIn? scope name = some binding ∧
            next = (session lastId commands).retype binding type) := by
  have owned := owned_session lastId commands
  refine ⟨fun _ _ _ _ => owned.rebind_refused, fun scope name type _ _ _ refused => ?_⟩
  rcases owned.declare_refused refused with
    ⟨closed, rfl⟩ | ⟨isOpen, ⟨free, rfl⟩ | ⟨binding, found, rfl⟩⟩
  · refine ⟨iff_of_true rfl ?_, fun changed => absurd rfl changed⟩
    rintro ⟨isOpen, _⟩
    rw [closed] at isOpen
    cases isOpen
  · refine ⟨iff_of_true rfl ?_, fun changed => absurd rfl changed⟩
    rintro ⟨_, binding, found, _⟩
    rw [free] at found
    cases found
  · refine ⟨?_, fun _ => ⟨binding, found, rfl⟩⟩
    rw [retype_eq_self_iff (owned.lt_of_declaredIn? found)]
    constructor
    · rintro same ⟨_, other, again, different⟩
      rw [found] at again
      cases again
      exact different same
    · intro kept
      refine Decidable.byContradiction fun different => kept ?_
      exact ⟨isOpen, binding, found, different⟩

/-- A variable without an object, and an object that a sweep has freed. -/
def mistyped : List Command :=
  [.openRoot, .allocate "A" false, .declare 0 "v" "B" none, .sweep]

theorem declare_mistyped (type : String) :
    ∃ error, Memory.declare .counting 0 "v" type (some 0) (session 0 mistyped) =
      .error error ((session 0 mistyped).retype 0 type) :=
  ⟨_, declare_of_released (by decide +kernel) (by decide +kernel) (by decide +kernel)
    (by decide +kernel) (by decide +kernel)⟩

theorem retypes_mistyped_iff (type : String) :
    (session 0 mistyped).Retypes 0 "v" type ↔ type ≠ "B" := by
  have isOpen : ((session 0 mistyped).scope 0).closed = false := by decide +kernel
  have found : (session 0 mistyped).declaredIn? 0 "v" = some 0 := by decide +kernel
  have declared : ((session 0 mistyped).binding 0).type = "B" := by decide +kernel
  simp [Retypes, isOpen, found, declared, eq_comm]

/-- The freed object is refused as the value of the variable.  Rebound, or declared with the type
that it has, the variable stays as it is; declared with another type it does not. -/
theorem refused_unless_retypes_mistyped :
    (∃ error, Memory.rebind .counting 0 (some 0) (session 0 mistyped) =
      .error error (session 0 mistyped)) ∧
    (∃ error, Memory.declare .counting 0 "v" "B" (some 0) (session 0 mistyped) =
      .error error (session 0 mistyped)) ∧
    ∃ error next, Memory.declare .counting 0 "v" "A" (some 0) (session 0 mistyped) =
        .error error next ∧
      next ≠ session 0 mistyped := by
  obtain ⟨cause, next, unbound⟩ : ∃ error next,
      Memory.rebind .counting 0 (some 0) (session 0 mistyped) = .error error next :=
    ⟨_, _, rebind_of_released (by decide +kernel) (by decide +kernel)⟩
  have idle := (refused_unless_retypes 0 mistyped).1 0 (some 0) cause next unbound
  obtain ⟨error, refused⟩ := declare_mistyped "B"
  obtain ⟨other, denied⟩ := declare_mistyped "A"
  have kept := ((refused_unless_retypes 0 mistyped).2 0 "v" "B" (some 0) error _ refused).1
  have lost := ((refused_unless_retypes 0 mistyped).2 0 "v" "A" (some 0) other _ denied).1
  rw [retypes_mistyped_iff] at kept lost
  refine ⟨⟨cause, by rw [unbound, idle]⟩, ⟨error, ?_⟩, other, _, denied, fun same => ?_⟩
  · rw [refused, kept.2 fun different => different rfl]
  · exact lost.1 same (by decide)

/-- A declaration that is refused need not leave everything as it was. -/
theorem not_atomic_mistyped : ¬(session 0 mistyped).Atomic := by
  intro atomic
  obtain ⟨error, refused⟩ := declare_mistyped "A"
  have same := atomic.declare 0 "v" "A" (some 0) error _ refused
  have declared := (retype_eq_self_iff (by decide +kernel)).1 same
  exact absurd declared (by decide +kernel)

end Memory

end Custody
