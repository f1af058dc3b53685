import Custody.Proofs.Memory.Growth
import Mathlib.Data.List.Find

/-!
# Variables after a change

A variable that is declared or assigned holds what it was given, and no other variable is
touched by that: its name leads to the same binding as before, and the binding holds the same
object.
-/

namespace Custody.Memory

variable {memory next : Memory} {rules : Heap.Discipline} {scope place : ScopeId}
variable {binding other : BindingId} {object : Option Ref} {name label type : String}

/-- What a name leads to depends on the scopes and on the names of the bindings. -/
theorem lookup?_congr (scopes : next.scopes = memory.scopes)
    (names : ∀ binding, (next.binding binding).name = (memory.binding binding).name)
    (scope : ScopeId) (name : String) : next.lookup? scope name = memory.lookup? scope name := by
  simp only [lookup?, declaredIn?, Memory.scope, scopes, names]

theorem name_setObject (memory : Memory) (binding : BindingId) (object : Option Ref)
    (other : BindingId) :
    ((memory.setObject binding object).binding other).name = (memory.binding other).name := by
  rw [name_binding, labels_setObject, name_binding]

theorem object_setObject (inside : binding < memory.bindings.length) :
    ((memory.setObject binding object).binding binding).object = object := by
  rw [setObject, binding_updateBinding memory binding binding _ inside, if_pos rfl]

/-! ## Assignments -/

theorem rebind_eq_ok (done : rebind rules binding object memory = .ok () next) :
    ∃ heap, rules.transfer (memory.binding binding).object object memory.heap = .ok () heap ∧
      next = { memory with heap }.setObject binding object := by
  cases moved : rules.transfer (memory.binding binding).object object memory.heap with
  | ok _ heap =>
      rw [rebind_of_ok moved] at done
      cases done
      exact ⟨heap, rfl, rfl⟩
  | error error heap =>
      rw [rebind_of_error moved] at done
      cases done

theorem lookup?_rebind (done : rebind rules binding object memory = .ok () next)
    (scope : ScopeId) (name : String) : next.lookup? scope name = memory.lookup? scope name := by
  obtain ⟨heap, _, rfl⟩ := rebind_eq_ok done
  have scopes : ({ memory with heap }.setObject binding object).scopes = memory.scopes := rfl
  exact lookup?_congr scopes (name_setObject { memory with heap } binding object) scope name

theorem binding_rebind_of_ne (done : rebind rules binding object memory = .ok () next)
    (apart : other ≠ binding) : next.binding other = memory.binding other := by
  obtain ⟨heap, _, rfl⟩ := rebind_eq_ok done
  exact binding_setObject_of_ne apart

theorem object_rebind (inside : binding < memory.bindings.length)
    (done : rebind rules binding object memory = .ok () next) :
    (next.binding binding).object = object := by
  obtain ⟨heap, _, rfl⟩ := rebind_eq_ok done
  exact object_setObject inside

/-! ## Declarations -/

theorem lookup?_retype (memory : Memory) (binding : BindingId) (type : String) (scope : ScopeId)
    (name : String) :
    (memory.retype binding type).lookup? scope name = memory.lookup? scope name := by
  have scopes : (memory.retype binding type).scopes = memory.scopes := rfl
  exact lookup?_congr scopes (fun other => (binding_retype memory binding other type).1) scope name

theorem lookup?_of_declaredIn? (found : memory.declaredIn? scope name = some binding) :
    memory.lookup? scope name = some binding := by
  rw [lookup?, List.findSome?_cons, found]

theorem binding_bindFresh_of_lt (memory : Memory) (scope : ScopeId) (name type : String)
    (object : Option Ref) (inside : other < memory.bindings.length) :
    (ending (bindFresh scope name type object memory)).binding other = memory.binding other := by
  simp [bindFresh, Memory.binding, updateScope, List.getElem?_append, inside]

theorem binding_bindFresh_self (memory : Memory) (scope : ScopeId) (name type : String)
    (object : Option Ref) :
    (ending (bindFresh scope name type object memory)).binding memory.bindings.length =
      ⟨name, type, object⟩ := by
  simp [bindFresh, Memory.binding, updateScope]

/-- The names of the bindings that a scope had are searched as before. -/
theorem find?_bindFresh (listed : memory.Listed) (scope : ScopeId) (name type : String)
    (object : Option Ref) (place : ScopeId) (label : String) :
    (memory.scope place).declared.find? (fun binding =>
        ((ending (bindFresh scope name type object memory)).binding binding).name == label) =
      memory.declaredIn? place label := by
  refine List.find?_congr fun binding member => ?_
  rw [binding_bindFresh_of_lt memory scope name type object (listed place binding member)]

theorem declaredIn?_bindFresh_of_ne (listed : memory.Listed) (scope : ScopeId) (type : String)
    (object : Option Ref) (place : ScopeId) (apart : label ≠ name) :
    (ending (bindFresh scope name type object memory)).declaredIn? place label =
      memory.declaredIn? place label := by
  have before := find?_bindFresh listed scope name type object place label
  rcases scope_bindFresh memory scope name type object place with kept | extended
  · rw [declaredIn?, kept, before]
  · rw [declaredIn?, extended, List.find?_append, before, List.find?_singleton,
      binding_bindFresh_self]
    simp [Ne.symm apart]

theorem declaredIn?_bindFresh_self (listed : memory.Listed)
    (isOpen : (memory.scope scope).closed = false) (free : memory.declaredIn? scope name = none)
    (type : String) (object : Option Ref) :
    (ending (bindFresh scope name type object memory)).declaredIn? scope name =
      some memory.bindings.length := by
  have within := lt_of_isOpen isOpen
  have declared : ((ending (bindFresh scope name type object memory)).scope scope).declared =
      (memory.scope scope).declared ++ [memory.bindings.length] := by
    simp [bindFresh, Memory.scope, updateScope, within]
  rw [declaredIn?, declared, List.find?_append,
    find?_bindFresh listed scope name type object scope name, free, List.find?_singleton,
    binding_bindFresh_self]
  simp

theorem enclosing_bindFresh (memory : Memory) (scope : ScopeId) (name type : String)
    (object : Option Ref) (place : ScopeId) :
    ((ending (bindFresh scope name type object memory)).scope place).enclosing =
      (memory.scope place).enclosing := by
  rcases scope_bindFresh memory scope name type object place with kept | extended
  · rw [kept]
  · rw [extended]

/-- A declaration leads other names to no other bindings. -/
theorem lookup?_declare_of_ne (listed : memory.Listed)
    (done : declare rules scope name type object memory = .ok binding next) (apart : label ≠ name)
    (place : ScopeId) : next.lookup? place label = memory.lookup? place label := by
  obtain ⟨_, ⟨_, rebound⟩ | ⟨_, heap, _, fresh⟩⟩ := declare_eq_ok done
  · rw [lookup?_rebind rebound, lookup?_retype]
  · have same : ∀ memory : Memory, memory.Listed →
        (ending (bindFresh scope name type object memory)).lookup? place label =
          memory.lookup? place label := by
      intro memory listed
      simp only [lookup?, enclosing_bindFresh,
        declaredIn?_bindFresh_of_ne listed scope type object _ apart]
    rw [← show ending _ = next from congrArg ending fresh]
    exact same { memory with heap } listed

/-- A name that is declared leads to its binding. -/
theorem lookup?_declare_self (listed : memory.Listed)
    (done : declare rules scope name type object memory = .ok binding next) :
    next.lookup? scope name = some binding := by
  obtain ⟨isOpen, ⟨found, rebound⟩ | ⟨free, heap, _, fresh⟩⟩ := declare_eq_ok done
  · rw [lookup?_rebind rebound, lookup?_retype]
    exact lookup?_of_declaredIn? found
  · have listed : { memory with heap }.Listed := listed
    have here := declaredIn?_bindFresh_self listed isOpen free type object
    cases fresh
    exact lookup?_of_declaredIn? here

theorem object_declare (listed : memory.Listed)
    (done : declare rules scope name type object memory = .ok binding next) :
    (next.binding binding).object = object := by
  obtain ⟨_, ⟨found, rebound⟩ | ⟨_, heap, _, fresh⟩⟩ := declare_eq_ok done
  · have inside := listed scope binding (List.mem_of_find?_eq_some found)
    exact object_rebind (by simpa [retype, updateBinding] using inside) rebound
  · have new := binding_bindFresh_self { memory with heap } scope name type object
    cases fresh
    exact congrArg Binding.object new

theorem listed_declare (listed : memory.Listed)
    (done : declare rules scope name type object memory = .ok binding next) : next.Listed := by
  have advances : Advances [(name, type)] memory next := .declare (.head _) done
  exact advances.listed listed

/-- A declaration changes no binding but that of its name. -/
theorem binding_declare_of_ne
    (done : declare rules scope name type object memory = .ok binding next)
    (inside : other < memory.bindings.length) (apart : other ≠ binding) :
    next.binding other = memory.binding other := by
  obtain ⟨_, ⟨found, rebound⟩ | ⟨_, heap, _, fresh⟩⟩ := declare_eq_ok done
  · rw [binding_rebind_of_ne rebound apart, retype]
    rcases Nat.lt_or_ge binding memory.bindings.length with within | outside
    · rw [binding_updateBinding memory binding other _ within, if_neg apart]
    · rw [updateBinding, List.modify_eq_self outside]
  · rw [← show ending _ = next from congrArg ending fresh]
    exact binding_bindFresh_of_lt { memory with heap } scope name type object inside

/-! ## Variables that are not touched -/

/-- Scopes and bindings are what they were. -/
structure Rests (memory next : Memory) : Prop where
  scopes : next.scopes = memory.scopes
  bindings : next.bindings = memory.bindings

/-- A variable is what it was. -/
structure Retains (scope : ScopeId) (name : String) (memory next : Memory) : Prop where
  lookup : next.lookup? scope name = memory.lookup? scope name
  binding : ∀ {binding}, memory.lookup? scope name = some binding →
    next.binding binding = memory.binding binding

theorem Rests.listed (rests : memory.Rests next) (listed : memory.Listed) : next.Listed := by
  intro scope binding member
  rw [rests.bindings]
  rw [Memory.scope, rests.scopes] at member
  exact listed scope binding member

theorem Rests.retains (rests : memory.Rests next) (scope : ScopeId) (name : String) :
    Retains scope name memory next := by
  have same : ∀ binding, next.binding binding = memory.binding binding :=
    fun binding => by rw [Memory.binding, rests.bindings, Memory.binding]
  exact ⟨lookup?_congr rests.scopes (fun binding => by rw [same]) scope name,
    fun _ => same _⟩

theorem Retains.trans {middle : Memory} (first : Retains scope name memory middle)
    (second : Retains scope name middle next) : Retains scope name memory next where
  lookup := second.lookup.trans first.lookup
  binding found := (second.binding (first.lookup.trans found)).trans (first.binding found)

theorem retains_declare (listed : memory.Listed)
    (done : declare rules scope name type object memory = .ok binding next) (apart : label ≠ name) :
    Retains scope label memory next := by
  have same := lookup?_declare_of_ne listed done apart scope
  refine ⟨same, fun {other} found => ?_⟩
  refine binding_declare_of_ne done (listed.lt_of_lookup? found) ?_
  rintro rfl
  have one := name_of_lookup? (same.trans found)
  have two := name_of_lookup? (lookup?_declare_self listed done)
  exact apart (one.symm.trans two)

end Custody.Memory
