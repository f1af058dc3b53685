import Custody.Memory
import Custody.Proofs.Heap.Balance

/-!
# Ownership of a memory

The objects of a memory are held by its bindings, by the fields of other objects,
and by whoever else keeps references of his own.  `Memory.Owned` says that the
counts of the heap are exactly these references.  Then no scope is ever closed in
vain, and the operations on bindings fail only where a released object is to be
held.
-/

namespace Custody.Memory

variable {memory : Memory} {rules : Heap.Discipline} {held : List Ref}
variable {binding : BindingId} {scope : ScopeId} {object : Option Ref} {name type : String}

/-! ## Equations -/

/-- Let a binding hold an object, whatever that does to the heap. -/
def setObject (memory : Memory) (binding : BindingId) (object : Option Ref) : Memory :=
  memory.updateBinding binding fun held => { held with object }

/-- The memory with a new object. -/
def withNew (memory : Memory) (type : String) (isExternal : Bool) : Memory :=
  { memory with heap := memory.heap.extended type isExternal }

theorem allocate_withNew (memory : Memory) (explain : Heap.Error → Error) (type : String)
    (isExternal : Bool) :
    onHeap explain (Heap.allocate type isExternal) memory =
      .ok memory.heap.objects.length (memory.withNew type isExternal) := rfl

theorem object_withNew (memory : Memory) (type : String) (isExternal : Bool) :
    (memory.withNew type isExternal).heap.object memory.heap.objects.length =
      .fresh (memory.heap.lastId + 1) type isExternal := by
  rw [withNew, Heap.object_extended, if_pos rfl]

theorem rebind_of_ok {heap : Heap}
    (moved : rules.transfer (memory.binding binding).object object memory.heap = .ok () heap) :
    rebind rules binding object memory =
      .ok () ({ memory with heap }.setObject binding object) := by
  simp only [rebind, onHeap, moved]
  rfl

theorem rebind_of_error {heap : Heap} {error : Heap.Error}
    (refused : rules.transfer (memory.binding binding).object object memory.heap =
      .error error heap) :
    rebind rules binding object memory =
      .error (.rebind (memory.binding binding).name error) { memory with heap } := by
  simp only [rebind, onHeap, refused]

/-- Give a binding another type. -/
def retype (memory : Memory) (binding : BindingId) (type : String) : Memory :=
  memory.updateBinding binding fun held => { held with type }

theorem declare_of_found {next : Memory} (isOpen : (memory.scope scope).closed = false)
    (found : memory.declaredIn? scope name = some binding)
    (rebound : rebind rules binding object (memory.retype binding type) = .ok () next) :
    declare rules scope name type object memory = .ok binding next := by
  rw [retype] at rebound
  simp only [declare, isOpen, Bool.false_eq_true, ↓reduceIte, found, rebound]

theorem declare_of_free {heap : Heap} (isOpen : (memory.scope scope).closed = false)
    (free : memory.declaredIn? scope name = none)
    (taken : rules.ref object memory.heap = .ok () heap) :
    declare rules scope name type object memory =
      bindFresh scope name type object { memory with heap } := by
  simp only [declare, isOpen, Bool.false_eq_true, ↓reduceIte, free, onHeap, taken]

/-- A name that is declared is rebound, or bound for the first time. -/
theorem declare_eq_ok {next : Memory}
    (done : declare rules scope name type object memory = .ok binding next) :
    (memory.scope scope).closed = false ∧
      ((memory.declaredIn? scope name = some binding ∧
          rebind rules binding object (memory.retype binding type) = .ok () next) ∨
        (memory.declaredIn? scope name = none ∧
          ∃ heap, rules.ref object memory.heap = .ok () heap ∧
            bindFresh scope name type object { memory with heap } = .ok binding next)) := by
  unfold declare at done
  split at done
  · cases done
  next isOpen =>
    refine ⟨by simpa using isOpen, ?_⟩
    split at done
    next found =>
      split at done
      next rebound =>
        cases done
        exact .inl ⟨found, rebound⟩
      next => cases done
    next free =>
      cases taken : rules.ref object memory.heap with
      | ok _ heap =>
          simp only [onHeap, taken] at done
          exact .inr ⟨free, heap, rfl, done⟩
      | error error heap =>
          simp only [onHeap, taken] at done
          cases done

theorem releaseAll_of_ok {rest : List BindingId} {heap : Heap}
    (released : rules.unref (memory.binding binding).object memory.heap = .ok () heap) :
    releaseAll rules (binding :: rest) memory =
      releaseAll rules rest ({ memory with heap }.setObject binding none) := by
  simp only [releaseAll, released]
  rfl

theorem releaseAll_of_error {rest : List BindingId} {heap : Heap} {error : Heap.Error}
    (refused : rules.unref (memory.binding binding).object memory.heap = .error error heap) :
    releaseAll rules (binding :: rest) memory =
      (((memory.binding binding).name, error) ::
          (releaseAll rules rest ({ memory with heap }.setObject binding none)).1,
        (releaseAll rules rest ({ memory with heap }.setObject binding none)).2) := by
  simp only [releaseAll, refused]
  rfl

theorem close_of_released {next : Memory} (isOpen : (memory.scope scope).closed = false)
    (released : releaseAll rules (memory.scope scope).declared.reverse memory = ([], next)) :
    close rules scope memory = .ok () (next.updateScope scope fun scope =>
      { scope with declared := [], closed := true }) := by
  simp [close, isOpen, released]

/-- A scope that is closed already stays as it is; any other lets go of its bindings. -/
theorem close_eq_ok {next : Memory} (done : close rules scope memory = .ok () next) :
    ((memory.scope scope).closed = true ∧ next = memory) ∨
      ((memory.scope scope).closed = false ∧
        next = (releaseAll rules (memory.scope scope).declared.reverse memory).2.updateScope scope
          fun scope => { scope with declared := [], closed := true }) := by
  unfold close at done
  dsimp only at done
  split at done
  next closed =>
    cases done
    exact .inl ⟨closed, rfl⟩
  next isOpen =>
    split at done
    · cases done
      exact .inr ⟨by simpa using isOpen, rfl⟩
    · cases done

theorem binding_updateBinding (memory : Memory) (binding other : BindingId)
    (change : Binding → Binding) (inside : binding < memory.bindings.length) :
    (memory.updateBinding binding change).binding other =
      if other = binding then change (memory.binding binding) else memory.binding other := by
  simp only [Memory.binding, updateBinding, List.getD_eq_getElem?_getD, List.getElem?_modify]
  by_cases same : other = binding
  · subst same
    simp [inside]
  · simp [same, Ne.symm same]

theorem scope_updateScope (memory : Memory) (scope other : ScopeId) (change : Scope → Scope) :
    (memory.updateScope scope change).scope other = memory.scope other ∨
      (memory.updateScope scope change).scope other = change (memory.scope other) := by
  simp only [Memory.scope, updateScope, List.getD_eq_getElem?_getD, List.getElem?_modify]
  by_cases same : scope = other
  · subst same
    cases found : memory.scopes[scope]? with
    | none => simp
    | some held => simp
  · simp [same]

theorem closed_bindFresh (scope : ScopeId) (name type : String) (object : Option Ref)
    (other : ScopeId) :
    ((ending (bindFresh scope name type object memory)).scope other).closed =
      (memory.scope other).closed := by
  rcases scope_updateScope
      { memory with bindings := memory.bindings ++ [(⟨name, type, object⟩ : Binding)] } scope other
      (fun scope => { scope with declared := scope.declared ++ [memory.bindings.length] }) with
    same | changed
  · exact congrArg Scope.closed same
  · have kept := congrArg Scope.closed changed
    exact kept

/-! ## Stable properties of the heap -/

section Stable

variable {property : Heap → Prop}

theorem stable_rebind (stable : Heap.Stable property) (holds : property memory.heap)
    (binding : BindingId) (object : Option Ref) :
    property (ending (rebind .counting binding object memory)).heap := by
  have kept := stable.transfer (memory.binding binding).object object holds
  cases moved : Heap.transfer (memory.binding binding).object object memory.heap with
  | ok done heap =>
      rw [moved] at kept
      rw [rebind_of_ok moved]
      exact kept
  | error error heap =>
      rw [moved] at kept
      rw [rebind_of_error moved]
      exact kept

theorem stable_declare (stable : Heap.Stable property) (holds : property memory.heap)
    (scope : ScopeId) (name type : String) (object : Option Ref) :
    property (ending (declare .counting scope name type object memory)).heap := by
  unfold declare
  split
  · exact holds
  · split
    next binding found =>
      have retyped : property (memory.updateBinding binding fun held => { held with type }).heap :=
        holds
      have kept := stable_rebind stable retyped binding object
      split
      next memory done => rw [done] at kept; exact kept
      next error memory refused => rw [refused] at kept; exact kept
    next free =>
      have kept := stable.refer object holds
      simp only [Heap.Discipline.counting, onHeap]
      cases taken : Heap.ref object memory.heap with
      | ok done heap => rw [taken] at kept; exact kept
      | error error heap => rw [taken] at kept; exact kept

theorem stable_releaseAll (stable : Heap.Stable property) (bindings : List BindingId)
    (holds : property memory.heap) :
    property (releaseAll .counting bindings memory).2.heap := by
  induction bindings generalizing memory with
  | nil => exact holds
  | cons binding rest ih =>
      have kept := stable.unref (memory.binding binding).object holds
      unfold releaseAll
      dsimp only
      split
      next heap released =>
        rw [show Heap.unref _ _ = _ from released] at kept
        exact ih kept
      next error heap refused =>
        rw [show Heap.unref _ _ = _ from refused] at kept
        exact ih kept

theorem stable_close (stable : Heap.Stable property) (holds : property memory.heap)
    (scope : ScopeId) : property (ending (close .counting scope memory)).heap := by
  have kept := stable_releaseAll stable (memory.scope scope).declared.reverse holds
  unfold close
  dsimp only
  split
  · exact holds
  · split
    · exact kept
    · exact kept

end Stable

/-! ## Ownership -/

/-- The objects that the bindings hold. -/
def bound (memory : Memory) : List Ref := memory.bindings.flatMap (·.object.toList)

/-- The counts of the heap are the references of the bindings, of the fields, and
those that are held besides. -/
structure Owned (memory : Memory) (held : List Ref) : Prop where
  balanced : memory.heap.Balanced (memory.bound ++ held)
  settled : memory.heap.pending = []
  declared : ∀ scope binding, binding ∈ (memory.scope scope).declared →
    binding < memory.bindings.length

/-- A binding that is made to hold another object exchanges the two among all that
is bound. -/
theorem count_bound_updateBinding (inside : binding < memory.bindings.length)
    (change : Binding → Binding) (ref : Ref) :
    (memory.updateBinding binding change).bound.count ref +
        (memory.binding binding).object.toList.count ref =
      memory.bound.count ref +
        (change (memory.binding binding)).object.toList.count ref := by
  have place : memory.binding binding = memory.bindings[binding] := by
    simp [Memory.binding, List.getD_eq_getElem?_getD, inside]
  rw [place]
  exact count_flatMap_modify (fun binding => binding.object.toList) change memory.bindings binding
    inside ref

theorem count_bound_setObject (inside : binding < memory.bindings.length) (object : Option Ref)
    (ref : Ref) :
    (memory.setObject binding object).bound.count ref +
        (memory.binding binding).object.toList.count ref =
      memory.bound.count ref + object.toList.count ref :=
  count_bound_updateBinding inside (fun held => { held with object }) ref

theorem mem_bound (inside : binding < memory.bindings.length) {ref : Ref}
    (holds : (memory.binding binding).object = some ref) : ref ∈ memory.bound := by
  have place : memory.binding binding = memory.bindings[binding] := by
    simp [Memory.binding, List.getD_eq_getElem?_getD, inside]
  rw [place] at holds
  exact List.mem_flatMap.2 ⟨_, List.getElem_mem inside, by simp [holds]⟩

theorem length_bindings_setObject (memory : Memory) (binding : BindingId) (object : Option Ref) :
    (memory.setObject binding object).bindings.length = memory.bindings.length := by
  simp [setObject, updateBinding]

namespace Owned

theorem lt_of_declaredIn? (owned : memory.Owned held)
    (found : memory.declaredIn? scope name = some binding) :
    binding < memory.bindings.length :=
  owned.declared scope binding (List.mem_of_find?_eq_some found)

theorem lt_of_lookup? (owned : memory.Owned held)
    (found : memory.lookup? scope name = some binding) : binding < memory.bindings.length := by
  obtain ⟨place, _, here⟩ := List.exists_of_findSome?_eq_some found
  exact owned.lt_of_declaredIn? here

/-- What is bound is not released. -/
theorem not_released_of_bound (owned : memory.Owned held) (inside : binding < memory.bindings.length)
    {ref : Ref} (holds : (memory.binding binding).object = some ref) :
    (memory.heap.object ref).released = false :=
  owned.balanced.not_released_of_mem (List.mem_append_left _ (mem_bound inside holds))

theorem not_released_of_held (owned : memory.Owned held) {ref : Ref} (member : ref ∈ held) :
    (memory.heap.object ref).released = false :=
  owned.balanced.not_released_of_mem (List.mem_append_right _ member)

theorem ofHeap (lastId : Nat) : (ofHeap (.startingAfter lastId)).Owned [] where
  balanced := Heap.Balanced.startingAfter lastId
  settled := rfl
  declared := by simp [Memory.scope, Memory.ofHeap]

theorem congr {others : List Ref} (owned : memory.Owned held)
    (same : ∀ ref, held.count ref = others.count ref) : memory.Owned others where
  balanced := owned.balanced.congr fun ref => by rw [List.count_append, List.count_append, same]
  settled := owned.settled
  declared := owned.declared

/-- Any heap with the same balance will do. -/
theorem onHeap {others : List Ref} {heap : Heap} (owned : memory.Owned held)
    (balanced : heap.Balanced (memory.bound ++ others)) (settled : heap.pending = []) :
    { memory with heap }.Owned others :=
  ⟨balanced, settled, owned.declared⟩

theorem openScope (owned : memory.Owned held) (enclosing : List ScopeId) :
    (ending (Memory.openScope enclosing memory)).Owned held where
  balanced := owned.balanced
  settled := owned.settled
  declared := by
    intro scope binding member
    simp only [Memory.openScope, ending_ok, Memory.scope, List.getD_eq_getElem?_getD,
      List.getElem?_append] at member
    split at member
    · exact owned.declared scope binding (by simpa [Memory.scope] using member)
    · cases place : scope - memory.scopes.length with
      | zero => simp [place] at member
      | succ rest => simp [place] at member

theorem allocate (owned : memory.Owned held) (type : String) (isExternal : Bool) :
    (memory.withNew type isExternal).Owned held :=
  owned.onHeap (owned.balanced.extended type isExternal) owned.settled

/-- Something that is not released may be held besides. -/
theorem hold (owned : memory.Owned held) {ref : Ref}
    (present : (memory.heap.object ref).released = false) :
    { memory with heap := memory.heap.update ref .raise }.Owned (ref :: held) := by
  refine owned.onHeap ((owned.balanced.raise present).congr fun other => ?_) owned.settled
  simp only [List.count_cons, List.count_append]
  omega

theorem updateBinding (owned : memory.Owned held) (change : Binding → Binding)
    (same : ∀ binding, (change binding).object = binding.object) (binding : BindingId) :
    (memory.updateBinding binding change).Owned held where
  balanced := by
    rcases Nat.lt_or_ge binding memory.bindings.length with inside | outside
    · refine owned.balanced.congr fun ref => ?_
      have moved := count_bound_updateBinding inside change ref
      rw [same] at moved
      simp only [List.count_append]
      omega
    · have unchanged : memory.updateBinding binding change = memory := by
        simp [Memory.updateBinding, List.modify_eq_self outside]
      rw [unchanged]
      exact owned.balanced
  settled := owned.settled
  declared scope other member := by
    simpa [Memory.updateBinding] using owned.declared scope other member

theorem updateScope {change : Scope → Scope} (owned : memory.Owned held)
    (known : ∀ scope : Scope, ∀ binding ∈ (change scope).declared,
      binding ∈ scope.declared ∨ binding < memory.bindings.length) (scope : ScopeId) :
    (memory.updateScope scope change).Owned held where
  balanced := owned.balanced
  settled := owned.settled
  declared other binding member := by
    change binding < memory.bindings.length
    rcases scope_updateScope memory scope other change with same | changed
    · rw [same] at member
      exact owned.declared other binding member
    · rw [changed] at member
      rcases known _ binding member with kept | inside
      · exact owned.declared other binding kept
      · exact inside

/-- A binding lets one object go for another, unless that one is released. -/
theorem rebind (owned : memory.Owned held) (inside : binding < memory.bindings.length)
    (object : Option Ref) :
    (∃ error, Memory.rebind .counting binding object memory = .error error memory ∧
        memory.heap.isReleased object = true) ∨
      ∃ heap, Heap.transfer (memory.binding binding).object object memory.heap = .ok () heap ∧
        Memory.rebind .counting binding object memory =
          .ok () ({ memory with heap }.setObject binding object) ∧
        ({ memory with heap }.setObject binding object).Owned held := by
  -- all that is held but for the object of this binding
  let rest := (memory.setObject binding none).bound ++ held
  have without : ∀ ref, (memory.bound ++ held).count ref =
      ((memory.binding binding).object.toList ++ rest).count ref := by
    intro ref
    have moved := count_bound_setObject inside none ref
    simp only [Option.toList_none, List.count_nil] at moved
    simp only [rest, List.count_append]
    omega
  rcases (owned.balanced.congr without).transfer owned.settled object with
    ⟨error, refused, _, gone⟩ | ⟨heap, moved, balanced, settled⟩
  · exact .inl ⟨_, rebind_of_error refused, gone⟩
  · refine .inr ⟨heap, moved, rebind_of_ok moved, ?_, settled, ?_⟩
    · change heap.Balanced ((memory.setObject binding object).bound ++ held)
      refine balanced.congr fun ref => ?_
      have before := count_bound_setObject inside none ref
      have after := count_bound_setObject inside object ref
      simp only [Option.toList_none, List.count_nil] at before
      simp only [rest, List.count_append]
      omega
    · intro scope other member
      simpa [setObject, Memory.updateBinding] using owned.declared scope other member

theorem bindFresh (owned : memory.Owned (object.toList ++ held)) (scope : ScopeId)
    (name type : String) :
    (ending (Memory.bindFresh scope name type object memory)).Owned held := by
  have extended : { memory with bindings := memory.bindings ++ [(⟨name, type, object⟩ : Binding)] }.Owned
      held := by
    refine ⟨owned.balanced.congr fun ref => ?_, owned.settled, fun scope binding member => ?_⟩
    · simp only [bound, List.flatMap_append, List.flatMap_cons, List.flatMap_nil, List.append_nil,
        List.count_append]
      omega
    · rw [List.length_append]
      exact Nat.lt_add_right _ (owned.declared scope binding member)
  refine extended.updateScope (fun scope binding member => ?_) scope
  rcases List.mem_append.1 member with kept | new
  · exact .inl kept
  · rw [List.mem_singleton.1 new, List.length_append]
    exact .inr (Nat.lt_succ_self _)

/-- A name is declared unless the scope is closed or the object released. -/
theorem declare (owned : memory.Owned held) (scope : ScopeId) (name type : String)
    (object : Option Ref) :
    (∃ error next, Memory.declare .counting scope name type object memory = .error error next ∧
        ((memory.scope scope).closed = true ∨ memory.heap.isReleased object = true)) ∨
      ∃ binding next, Memory.declare .counting scope name type object memory = .ok binding next ∧
        next.Owned held ∧ ∀ scope, (next.scope scope).closed = (memory.scope scope).closed := by
  unfold Memory.declare
  split
  next closed => exact .inl ⟨_, _, rfl, .inl closed⟩
  next =>
    cases found : memory.declaredIn? scope name with
    | some binding =>
        have inside := owned.lt_of_declaredIn? found
        have retyped := owned.updateBinding (fun held => { held with type }) (fun _ => rfl) binding
        rcases retyped.rebind (by simpa [Memory.updateBinding] using inside) object with
          ⟨error, refused, gone⟩ | ⟨heap, _, done, next⟩
        · simp only [refused]
          exact .inl ⟨_, _, rfl, .inr gone⟩
        · simp only [done]
          exact .inr ⟨_, _, rfl, next, fun _ => rfl⟩
    | none =>
        cases object with
        | none =>
            exact .inr ⟨_, _, rfl, owned.bindFresh scope name type,
              closed_bindFresh scope name type none⟩
        | some ref =>
            cases gone : (memory.heap.object ref).released with
            | true =>
                have refused : Heap.ref (some ref) memory.heap =
                    .error (.ref (memory.heap.object ref).label) memory.heap := by
                  simp [Heap.ref, gone]
                simp only [Heap.Discipline.counting, Memory.onHeap, refused]
                exact .inl ⟨_, _, rfl, .inr gone⟩
            | false =>
                have taken : Heap.ref (some ref) memory.heap =
                    .ok () (memory.heap.update ref .raise) := by
                  simp [Heap.ref, gone]
                simp only [Heap.Discipline.counting, Memory.onHeap, taken]
                exact .inr ⟨_, _, rfl, (owned.hold gone).bindFresh scope name type,
                  closed_bindFresh scope name type (some ref)⟩

/-- A binding lets go of its object without failure. -/
theorem letGo (owned : memory.Owned held) (inside : binding < memory.bindings.length) :
    ∃ heap, Heap.unref (memory.binding binding).object memory.heap = .ok () heap ∧
      ({ memory with heap }.setObject binding none).Owned held := by
  have idle : Heap.transfer (memory.binding binding).object none memory.heap =
      Heap.unref (memory.binding binding).object memory.heap := by
    cases (memory.binding binding).object <;> rfl
  rcases owned.rebind inside none with ⟨_, _, gone⟩ | ⟨heap, moved, _, next⟩
  · cases gone
  · exact ⟨heap, idle.symm.trans moved, next⟩

/-- Bindings are released without failure. -/
theorem releaseAll (bindings : List BindingId) (owned : memory.Owned held)
    (inside : ∀ binding ∈ bindings, binding < memory.bindings.length) :
    ∃ next, Memory.releaseAll .counting bindings memory = ([], next) ∧ next.Owned held ∧
      next.bindings.length = memory.bindings.length := by
  induction bindings generalizing memory with
  | nil => exact ⟨memory, rfl, owned, rfl⟩
  | cons binding rest ih =>
      obtain ⟨heap, dropped, next⟩ := owned.letGo (inside binding (.head _))
      have same := length_bindings_setObject { memory with heap } binding none
      obtain ⟨last, released, owned, length⟩ := ih next fun other member => by
        rw [same]
        exact inside other (.tail _ member)
      refine ⟨last, ?_, owned, length.trans same⟩
      rw [releaseAll_of_ok dropped, released]

/-- A scope is closed without failure. -/
theorem close (owned : memory.Owned held) (scope : ScopeId) :
    ∃ next, Memory.close .counting scope memory = .ok () next ∧ next.Owned held := by
  cases flag : (memory.scope scope).closed with
  | true => exact ⟨memory, by simp [Memory.close, flag], owned⟩
  | false =>
      obtain ⟨next, released, kept, _⟩ :=
        owned.releaseAll (memory.scope scope).declared.reverse fun binding member =>
          owned.declared scope binding (List.mem_reverse.1 member)
      refine ⟨_, close_of_released flag released, kept.updateScope ?_ scope⟩
      intro scope binding member
      cases member

end Owned

end Custody.Memory
