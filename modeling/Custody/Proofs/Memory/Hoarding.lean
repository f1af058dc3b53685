import Custody.Proofs.Heap.Hoarding
import Custody.Proofs.Heap.Index
import Custody.Proofs.Memory.Ownership

/-!
# Hoarding memories

Scopes and bindings take no notice of the rules for the heap: whatever succeeds
under any rules succeeds when nothing is ever freed, and leaves the same scopes
and bindings behind.  `Memory.Hoarded` joins a memory that counts references with
the heap that shadows its own.
-/

namespace Custody.Memory

variable {memory next : Memory} {rules : Heap.Discipline} {held : List Ref} {shadow : Heap}
variable {binding : BindingId} {scope : ScopeId} {object : Option Ref} {name type : String}

/-- The memory with another heap. -/
def withHeap (memory : Memory) (heap : Heap) : Memory := { memory with heap }

@[simp] theorem heap_withHeap (memory : Memory) (heap : Heap) :
    (memory.withHeap heap).heap = heap := rfl

/-! ## Erasing the rules -/

theorem rebind_hoarding (done : rebind rules binding object memory = .ok () next)
    (shadow : Heap) :
    rebind .hoarding binding object (memory.withHeap shadow) = .ok () (next.withHeap shadow) := by
  cases moved : rules.transfer (memory.binding binding).object object memory.heap with
  | ok _ heap =>
      rw [rebind_of_ok moved] at done
      cases done
      rfl
  | error error heap =>
      rw [rebind_of_error moved] at done
      cases done

theorem declare_hoarding (done : declare rules scope name type object memory = .ok binding next)
    (shadow : Heap) :
    declare .hoarding scope name type object (memory.withHeap shadow) =
      .ok binding (next.withHeap shadow) := by
  obtain ⟨isOpen, ⟨found, rebound⟩ | ⟨free, heap, _, fresh⟩⟩ := declare_eq_ok done
  · exact declare_of_found isOpen found (rebind_hoarding rebound shadow)
  · cases fresh
    have stillOpen : ((memory.withHeap shadow).scope scope).closed = false := isOpen
    have stillFree : (memory.withHeap shadow).declaredIn? scope name = none := free
    have taken : Heap.Discipline.hoarding.ref object (memory.withHeap shadow).heap =
        .ok () shadow := rfl
    exact declare_of_free stillOpen stillFree taken

theorem releaseAll_hoarding (rules : Heap.Discipline) (bindings : List BindingId)
    (memory : Memory) (shadow : Heap) :
    releaseAll .hoarding bindings (memory.withHeap shadow) =
      ([], (releaseAll rules bindings memory).2.withHeap shadow) := by
  induction bindings generalizing memory with
  | nil => rfl
  | cons binding rest ih =>
      have idle : Heap.Discipline.hoarding.unref ((memory.withHeap shadow).binding binding).object
          (memory.withHeap shadow).heap = .ok () shadow := rfl
      rw [releaseAll_of_ok idle]
      conv => rhs; rw [releaseAll]
      dsimp only
      split
      next heap released => exact ih ({ memory with heap }.setObject binding none)
      next error heap refused => exact ih ({ memory with heap }.setObject binding none)

theorem close_hoarding (rules : Heap.Discipline) (scope : ScopeId) (memory : Memory)
    (shadow : Heap) :
    close .hoarding scope (memory.withHeap shadow) =
      .ok () ((ending (close rules scope memory)).withHeap shadow) := by
  have released := releaseAll_hoarding rules (memory.scope scope).declared.reverse memory shadow
  cases flag : (memory.scope scope).closed with
  | true =>
      have same : ((memory.withHeap shadow).scope scope).closed = true := flag
      simp [close, flag, same]
  | false =>
      have same : ((memory.withHeap shadow).scope scope).closed = false := flag
      rw [close_of_released same released]
      unfold close
      dsimp only
      rw [flag]
      split
      · rename_i impossible
        cases impossible
      · split <;> rfl

/-! ## The first binding -/

/-- The first binding has a name and an object, and only the outermost scope has
declared it. -/
structure Keeps (memory : Memory) (name : String) (ref : Ref) : Prop where
  inside : 0 < memory.bindings.length
  name : (memory.binding 0).name = name
  object : (memory.binding 0).object = some ref
  outer : ∀ scope, 0 < scope → 0 ∉ (memory.scope scope).declared

theorem name_of_declaredIn? (found : memory.declaredIn? scope name = some binding) :
    (memory.binding binding).name = name := by
  have same := List.find?_some found
  exact eq_of_beq same

theorem name_of_lookup? (found : memory.lookup? scope name = some binding) :
    (memory.binding binding).name = name := by
  obtain ⟨place, _, here⟩ := List.exists_of_findSome?_eq_some found
  exact name_of_declaredIn? here

theorem scopes_rebind (done : rebind rules binding object memory = .ok () next) :
    next.scopes = memory.scopes := by
  cases moved : rules.transfer (memory.binding binding).object object memory.heap with
  | ok _ heap =>
      rw [rebind_of_ok moved] at done
      cases done
      rfl
  | error error heap =>
      rw [rebind_of_error moved] at done
      cases done

theorem length_scopes_declare (done : declare rules scope name type object memory = .ok binding next) :
    next.scopes.length = memory.scopes.length := by
  obtain ⟨_, ⟨_, rebound⟩ | ⟨_, heap, _, fresh⟩⟩ := declare_eq_ok done
  · rw [scopes_rebind rebound]
    rfl
  · cases fresh
    simp [updateScope]

theorem scopes_releaseAll (rules : Heap.Discipline) (bindings : List BindingId) (memory : Memory) :
    (releaseAll rules bindings memory).2.scopes = memory.scopes := by
  induction bindings generalizing memory with
  | nil => rfl
  | cons binding rest ih =>
      unfold releaseAll
      dsimp only
      split
      next heap released => exact ih ({ memory with heap }.setObject binding none)
      next error heap refused => exact ih ({ memory with heap }.setObject binding none)

theorem length_scopes_close (scope : ScopeId) (memory : Memory) :
    (ending (close rules scope memory)).scopes.length = memory.scopes.length := by
  have same := scopes_releaseAll rules (memory.scope scope).declared.reverse memory
  unfold close
  dsimp only
  split
  · rfl
  · split
    · simp [updateScope, same]
    · simp [updateScope, same]

theorem closed_declare (done : declare rules scope name type object memory = .ok binding next)
    (other : ScopeId) : (next.scope other).closed = (memory.scope other).closed := by
  obtain ⟨_, ⟨_, rebound⟩ | ⟨_, heap, _, fresh⟩⟩ := declare_eq_ok done
  · rw [Memory.scope, scopes_rebind rebound]
    rfl
  · have same : ∀ memory : Memory,
        ((ending (bindFresh scope name type object memory)).scope other).closed =
          (memory.scope other).closed :=
      fun _ => closed_bindFresh scope name type object other
    rw [← show ending _ = next from congrArg ending fresh]
    exact same { memory with heap }

theorem binding_retype (memory : Memory) (binding other : BindingId) (type : String) :
    ((memory.retype binding type).binding other).name = (memory.binding other).name ∧
      ((memory.retype binding type).binding other).object = (memory.binding other).object := by
  simp only [Memory.retype, Memory.binding, updateBinding, List.getD_eq_getElem?_getD,
    List.getElem?_modify]
  cases memory.bindings[other]? with
  | none => exact ⟨rfl, rfl⟩
  | some found =>
      by_cases here : binding = other
      · simp [here]
      · simp [here]

theorem binding_setObject_of_ne {other : BindingId} (apart : other ≠ binding) :
    (memory.setObject binding object).binding other = memory.binding other := by
  simp [setObject, Memory.binding, updateBinding, Ne.symm apart]

/-- A binding that holds something else than what was bound last held it before. -/
theorem object_of_rebind {other : BindingId} {ref : Ref}
    (done : rebind rules binding object memory = .ok () next)
    (holds : (next.binding other).object = some ref) (different : object ≠ some ref) :
    (memory.binding other).object = some ref := by
  cases moved : rules.transfer (memory.binding binding).object object memory.heap with
  | error error heap =>
      rw [rebind_of_error moved] at done
      cases done
  | ok _ heap =>
      rw [rebind_of_ok moved] at done
      cases done
      by_cases here : other = binding
      · subst here
        cases found : memory.bindings[other]? with
        | none => simp [setObject, Memory.binding, updateBinding, found] at holds
        | some old =>
            simp [setObject, Memory.binding, updateBinding, found] at holds
            exact absurd holds different
      · rw [binding_setObject_of_ne here] at holds
        exact holds

theorem object_of_declare {other : BindingId} {ref : Ref}
    (done : declare rules scope name type object memory = .ok binding next)
    (holds : (next.binding other).object = some ref) (different : object ≠ some ref) :
    (memory.binding other).object = some ref := by
  obtain ⟨_, ⟨_, rebound⟩ | ⟨_, heap, _, fresh⟩⟩ := declare_eq_ok done
  · rw [← (binding_retype memory binding other type).2]
    exact object_of_rebind rebound holds different
  · cases fresh
    rw [← holds]
    simp only [Memory.binding, updateScope, List.getD_eq_getElem?_getD, List.getElem?_append]
      at holds ⊢
    split
    next => rfl
    next beyond =>
      rw [if_neg beyond] at holds
      cases place : other - memory.bindings.length with
      | zero =>
          simp [place] at holds
          exact absurd holds different
      | succ rest => simp [place] at holds

namespace Keeps

variable {kept : String} {ref : Ref}

theorem ofSame (keeps : memory.Keeps kept ref) (bindings : next.bindings = memory.bindings)
    (scopes : next.scopes = memory.scopes) : next.Keeps kept ref := by
  obtain ⟨heap, scopesNow, bindingsNow⟩ := next
  cases bindings
  cases scopes
  exact ⟨keeps.inside, keeps.name, keeps.object, keeps.outer⟩

theorem openScope (keeps : memory.Keeps kept ref) (enclosing : List ScopeId) :
    (ending (Memory.openScope enclosing memory)).Keeps kept ref := by
  refine ⟨keeps.inside, keeps.name, keeps.object, fun scope positive member => ?_⟩
  simp only [Memory.openScope, ending_ok, Memory.scope, List.getD_eq_getElem?_getD,
    List.getElem?_append] at member
  split at member
  · exact keeps.outer scope positive (by simpa [Memory.scope] using member)
  · cases place : scope - memory.scopes.length with
    | zero => simp [place] at member
    | succ rest => simp [place] at member

theorem setObject (keeps : memory.Keeps kept ref) (apart : binding ≠ 0) (object : Option Ref) :
    (memory.setObject binding object).Keeps kept ref := by
  have same : (memory.setObject binding object).binding 0 = memory.binding 0 :=
    binding_setObject_of_ne (Ne.symm apart)
  refine ⟨?_, by rw [same]; exact keeps.name, by rw [same]; exact keeps.object, keeps.outer⟩
  simpa [Memory.setObject, updateBinding] using keeps.inside

theorem rebind (keeps : memory.Keeps kept ref) (apart : binding ≠ 0)
    (done : Memory.rebind rules binding object memory = .ok () next) : next.Keeps kept ref := by
  cases moved : rules.transfer (memory.binding binding).object object memory.heap with
  | ok _ heap =>
      rw [rebind_of_ok moved] at done
      cases done
      have moved : { memory with heap }.Keeps kept ref := keeps.ofSame rfl rfl
      exact moved.setObject apart object
  | error error heap =>
      rw [rebind_of_error moved] at done
      cases done

theorem retype (keeps : memory.Keeps kept ref) (binding : BindingId) (type : String) :
    (memory.retype binding type).Keeps kept ref := by
  have same := binding_retype memory binding 0 type
  refine ⟨?_, same.1.trans keeps.name, same.2.trans keeps.object, keeps.outer⟩
  simpa [Memory.retype, updateBinding] using keeps.inside

theorem bindFresh (keeps : memory.Keeps kept ref) (scope : ScopeId) (name type : String)
    (object : Option Ref) :
    (ending (Memory.bindFresh scope name type object memory)).Keeps kept ref := by
  have inside := keeps.inside
  have same : (ending (Memory.bindFresh scope name type object memory)).binding 0 =
      memory.binding 0 := by
    simp [Memory.bindFresh, Memory.binding, updateScope, inside]
  refine ⟨?_, by rw [same]; exact keeps.name, by rw [same]; exact keeps.object, ?_⟩
  · simp [Memory.bindFresh, updateScope]
  · intro other positive member
    rcases scope_updateScope
        { memory with bindings := memory.bindings ++ [(⟨name, type, object⟩ : Binding)] } scope
        other (fun scope => { scope with declared := scope.declared ++ [memory.bindings.length] })
      with unchanged | changed
    · exact keeps.outer other positive (by rw [← show _ = memory.scope other from unchanged]; exact member)
    · have listed : 0 ∈ (memory.scope other).declared ++ [memory.bindings.length] := by
        have listing := congrArg Scope.declared changed
        rw [← show _ = (memory.scope other).declared ++ [memory.bindings.length] from listing]
        exact member
      rcases List.mem_append.1 listed with before | last
      · exact keeps.outer other positive before
      · exact absurd (List.mem_singleton.1 last) (Nat.ne_of_lt inside)

/-- Declaring another name, or in an inner scope, leaves the first binding alone. -/
theorem declare (keeps : memory.Keeps kept ref) (apart : memory.declaredIn? scope name ≠ some 0)
    (done : Memory.declare rules scope name type object memory = .ok binding next) :
    next.Keeps kept ref := by
  obtain ⟨_, ⟨found, rebound⟩ | ⟨_, heap, _, fresh⟩⟩ := declare_eq_ok done
  · have other : binding ≠ 0 := by
      rintro rfl
      exact apart found
    exact (keeps.retype binding type).rebind other rebound
  · have moved : { memory with heap }.Keeps kept ref := keeps.ofSame rfl rfl
    have kept := moved.bindFresh scope name type object
    rw [fresh] at kept
    exact kept

theorem declaredIn?_ne (keeps : memory.Keeps kept ref) (inner : 0 < scope) (name : String) :
    memory.declaredIn? scope name ≠ some 0 :=
  fun found => keeps.outer scope inner (List.mem_of_find?_eq_some found)

theorem releaseAll (bindings : List BindingId) (keeps : memory.Keeps kept ref)
    (apart : 0 ∉ bindings) :
    (Memory.releaseAll rules bindings memory).2.Keeps kept ref := by
  induction bindings generalizing memory with
  | nil => exact keeps
  | cons binding rest ih =>
      have other : binding ≠ 0 := by
        rintro rfl
        exact apart (.head _)
      have emptied : ∀ heap, ({ memory with heap }.setObject binding none).Keeps kept ref :=
        fun heap =>
          have moved : { memory with heap }.Keeps kept ref := keeps.ofSame rfl rfl
          moved.setObject other none
      unfold Memory.releaseAll
      dsimp only
      split
      next heap released => exact ih (emptied heap) fun member => apart (.tail _ member)
      next error heap refused => exact ih (emptied heap) fun member => apart (.tail _ member)

/-- Closing an inner scope leaves the first binding alone. -/
theorem close (keeps : memory.Keeps kept ref) (inner : 0 < scope) :
    (ending (Memory.close rules scope memory)).Keeps kept ref := by
  have released : (Memory.releaseAll rules (memory.scope scope).declared.reverse memory).2.Keeps
      kept ref :=
    keeps.releaseAll _ fun member => keeps.outer scope inner (List.mem_reverse.1 member)
  unfold Memory.close
  dsimp only
  split
  · exact keeps
  · suffices closed : Keeps (updateScope _ scope fun scope =>
        { scope with declared := [], closed := true }) kept ref by
      split
      · exact closed
      · exact closed
    refine ⟨released.inside, released.name, released.object, fun other positive member => ?_⟩
    rcases scope_updateScope (Memory.releaseAll rules (memory.scope scope).declared.reverse
        memory).2 scope other (fun scope => { scope with declared := [], closed := true }) with
      unchanged | changed
    · rw [unchanged] at member
      exact released.outer other positive member
    · rw [changed] at member
      cases member

end Keeps

/-! ## Memories with a shadow -/

/-- A memory that counts references, and a heap that shadows its own. -/
structure Hoarded (memory : Memory) (shadow : Heap) (held : List Ref) : Prop where
  shadowed : memory.heap.Shadowed shadow
  owned : memory.Owned held
  indexed : memory.heap.Indexed

namespace Hoarded

theorem openScope (hoarded : memory.Hoarded shadow held) (enclosing : List ScopeId) :
    (ending (Memory.openScope enclosing memory)).Hoarded shadow held :=
  ⟨hoarded.shadowed, hoarded.owned.openScope enclosing, hoarded.indexed⟩

theorem withNew (hoarded : memory.Hoarded shadow held) (type : String) (isExternal : Bool) :
    (memory.withNew type isExternal).Hoarded (shadow.extended type isExternal) held :=
  ⟨hoarded.shadowed.extended type isExternal, hoarded.owned.allocate type isExternal,
    hoarded.indexed.extended type isExternal⟩

theorem hold (hoarded : memory.Hoarded shadow held) {ref : Ref}
    (present : (memory.heap.object ref).released = false) :
    { memory with heap := memory.heap.update ref .raise }.Hoarded shadow (ref :: held) :=
  ⟨hoarded.shadowed.decays (.update .raise), hoarded.owned.hold present,
    Heap.Indexed.stable.raise ref hoarded.indexed⟩

/-- A memory whose heap has only counted and released goes on having its shadow. -/
theorem decays (hoarded : memory.Hoarded shadow held) {others : List Ref}
    (owned : next.Owned others)
    (kept : ∀ property : Heap → Prop, Heap.Stable property → property memory.heap →
      property next.heap) : next.Hoarded shadow others :=
  ⟨hoarded.shadowed.decays (kept _ (Heap.Decays.stable memory.heap) (.refl memory.heap)), owned,
    kept _ Heap.Indexed.stable hoarded.indexed⟩

theorem rebind (hoarded : memory.Hoarded shadow held) (inside : binding < memory.bindings.length)
    (done : Memory.rebind .counting binding object memory = .ok () next) :
    next.Hoarded shadow held := by
  refine hoarded.decays ?_ fun property stable holds => ?_
  · rcases hoarded.owned.rebind inside object with ⟨_, refused, _⟩ | ⟨heap, _, rebound, owned⟩
    · rw [done] at refused
      cases refused
    · rw [done] at rebound
      cases rebound
      exact owned
  · have kept := stable_rebind stable holds binding object
    rw [done] at kept
    exact kept

theorem declare (hoarded : memory.Hoarded shadow held)
    (done : Memory.declare .counting scope name type object memory = .ok binding next) :
    next.Hoarded shadow held := by
  refine hoarded.decays ?_ fun property stable holds => ?_
  · rcases hoarded.owned.declare scope name type object with
      ⟨_, _, refused, _⟩ | ⟨_, _, declared, owned, _⟩
    · rw [done] at refused
      cases refused
    · rw [done] at declared
      cases declared
      exact owned
  · have kept := stable_declare stable holds scope name type object
    rw [done] at kept
    exact kept

theorem close (hoarded : memory.Hoarded shadow held) (scope : ScopeId) :
    (ending (Memory.close .counting scope memory)).Hoarded shadow held := by
  refine hoarded.decays ?_ fun property stable holds => stable_close stable holds scope
  obtain ⟨next, closed, owned⟩ := hoarded.owned.close scope
  rw [closed]
  exact owned

theorem setField (hoarded : memory.Hoarded shadow held) {owner : Ref} {heap : Heap}
    (set : Heap.setField (some owner) name object memory.heap = .ok () heap) :
    { memory with heap }.Hoarded (shadow.update owner (.assign name object)) held := by
  refine ⟨hoarded.shadowed.setField set, ?_, ?_⟩
  · rcases hoarded.owned.balanced.setField hoarded.owned.settled (some owner) name object with
      ⟨_, refused, _⟩ | ⟨next, done, balanced, settled⟩
    · rw [set] at refused
      cases refused
    · rw [set] at done
      cases done
      exact hoarded.owned.onHeap balanced settled
  · have indexed := hoarded.indexed.setField (some owner) name object
    rw [set] at indexed
    exact indexed

theorem sweep (hoarded : memory.Hoarded shadow held) :
    ∃ heap, Heap.sweep memory.heap = .ok () heap ∧ memory.heap.Decays heap ∧
      { memory with heap }.Hoarded shadow held := by
  obtain ⟨heap, swept, balanced, settled⟩ := hoarded.owned.balanced.sweep
  have kept : ∀ property : Heap → Prop, Heap.Stable property → property memory.heap →
      property heap := by
    intro property stable holds
    have after := stable.sweep holds
    rw [swept] at after
    exact after
  exact ⟨heap, swept, kept _ (Heap.Decays.stable memory.heap) (.refl memory.heap),
    hoarded.decays (hoarded.owned.onHeap balanced settled) kept⟩

end Hoarded

end Custody.Memory
