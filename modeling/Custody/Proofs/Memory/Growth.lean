import Custody.Proofs.Memory.Scopes

/-!
# Growing memories

What is bound in a scope stays bound there while scopes are opened and closed inside
and names are declared: `Memory.Advances` says so of two memories, and that every name
with a type that is new is one of those declared in between.
-/

namespace Custody.Memory

variable {memory middle next : Memory} {rules : Heap.Discipline} {scope : ScopeId}
variable {binding : BindingId} {object : Option Ref} {name type : String}
variable {declared : List (String × String)}

/-- The names of all bindings with their types. -/
def labels (memory : Memory) : List (String × String) :=
  memory.bindings.map fun binding => (binding.name, binding.type)

/-- Scopes declare only bindings that there are. -/
def Listed (memory : Memory) : Prop :=
  ∀ scope, ∀ binding ∈ (memory.scope scope).declared, binding < memory.bindings.length

/-- What was bound is bound, and what is new is among some declarations. -/
structure Advances (declared : List (String × String)) (memory next : Memory) : Prop where
  scopes : memory.scopes.length ≤ next.scopes.length
  enclosing : ∀ scope < memory.scopes.length,
    (next.scope scope).enclosing = (memory.scope scope).enclosing
  kept : ∀ scope < memory.scopes.length,
    (memory.scope scope).declared ⊆ (next.scope scope).declared
  isOpen : ∀ scope < memory.scopes.length,
    (memory.scope scope).closed = false → (next.scope scope).closed = false
  named : ∀ binding < memory.bindings.length,
    binding < next.bindings.length ∧ (next.binding binding).name = (memory.binding binding).name
  labels : ∀ label ∈ next.labels, label ∈ memory.labels ∨ label ∈ declared
  listed : memory.Listed → next.Listed

theorem name_binding (memory : Memory) (binding : BindingId) :
    (memory.binding binding).name = (memory.labels[binding]?.map (·.1)).getD "" := by
  simp only [Memory.binding, Memory.labels, List.getD_eq_getElem?_getD, List.getElem?_map]
  cases memory.bindings[binding]? with
  | none => rfl
  | some held => rfl

/-- Some scope in a chain declares a name. -/
def Binds (memory : Memory) (scope : ScopeId) (name : String) : Prop :=
  ∃ place ∈ scope :: (memory.scope scope).enclosing,
    ∃ binding ∈ (memory.scope place).declared, (memory.binding binding).name = name

/-! ## Names that are bound -/

theorem lt_of_mem_declared (member : binding ∈ (memory.scope scope).declared) :
    scope < memory.scopes.length := by
  apply Classical.byContradiction
  intro outside
  simp [Memory.scope, List.getElem?_eq_none (Nat.le_of_not_lt outside)] at member

theorem Binds.isSome_lookup? (binds : memory.Binds scope name) :
    (memory.lookup? scope name).isSome = true := by
  obtain ⟨place, inChain, binding, listed, named⟩ := binds
  rw [lookup?, List.findSome?_isSome_iff]
  refine ⟨place, inChain, ?_⟩
  rw [declaredIn?, List.find?_isSome]
  exact ⟨binding, listed, by simp [named]⟩

theorem Listed.lt_of_lookup? (listed : memory.Listed)
    (found : memory.lookup? scope name = some binding) : binding < memory.bindings.length := by
  obtain ⟨place, _, here⟩ := List.exists_of_findSome?_eq_some found
  exact listed place binding (List.mem_of_find?_eq_some here)

/-- What a name is bound to has one of the labels. -/
theorem Listed.mem_labels_of_lookup? (listed : memory.Listed)
    (found : memory.lookup? scope name = some binding) :
    (name, (memory.binding binding).type) ∈ memory.labels := by
  have inside := listed.lt_of_lookup? found
  have named := name_of_lookup? found
  have same : memory.binding binding = memory.bindings[binding] := by
    simp [Memory.binding, inside]
  refine List.mem_map.2 ⟨memory.binding binding, ?_, by rw [named]⟩
  rw [same]
  exact List.getElem_mem inside

/-! ## Steps -/

namespace Advances

theorem refl (memory : Memory) : Advances declared memory memory where
  scopes := Nat.le_refl _
  enclosing := fun _ _ => rfl
  kept := fun _ _ _ member => member
  isOpen := fun _ _ isOpen => isOpen
  named := fun _ inside => ⟨inside, rfl⟩
  labels := fun _ member => .inl member
  listed := id

theorem trans (first : Advances declared memory middle) (second : Advances declared middle next) :
    Advances declared memory next where
  scopes := Nat.le_trans first.scopes second.scopes
  enclosing := by
    intro scope inside
    rw [second.enclosing scope (Nat.lt_of_lt_of_le inside first.scopes),
      first.enclosing scope inside]
  kept := by
    intro scope inside binding member
    exact second.kept scope (Nat.lt_of_lt_of_le inside first.scopes) (first.kept scope inside member)
  isOpen := by
    intro scope inside isOpen
    exact second.isOpen scope (Nat.lt_of_lt_of_le inside first.scopes)
      (first.isOpen scope inside isOpen)
  named := by
    intro binding inside
    obtain ⟨still, same⟩ := first.named binding inside
    obtain ⟨further, also⟩ := second.named binding still
    exact ⟨further, also.trans same⟩
  labels := by
    intro label member
    rcases second.labels label member with earlier | new
    · exact first.labels label earlier
    · exact .inr new
  listed := fun listed => second.listed (first.listed listed)

/-- Objects do not matter. -/
theorem ofLabels (scopes : next.scopes = memory.scopes) (labels : next.labels = memory.labels) :
    Advances declared memory next := by
  have same : ∀ scope, next.scope scope = memory.scope scope := by
    intro scope
    rw [Memory.scope, scopes, Memory.scope]
  have length : next.bindings.length = memory.bindings.length := by
    simpa [Memory.labels] using congrArg List.length labels
  constructor
  · exact Nat.le_of_eq (by rw [scopes])
  · intro scope _
    rw [same]
  · intro scope _
    rw [same]
    exact List.Subset.refl _
  · intro scope _ isOpen
    rw [same]
    exact isOpen
  · intro binding inside
    exact ⟨length ▸ inside, by rw [name_binding, labels, name_binding]⟩
  · intro label member
    exact .inl (labels ▸ member)
  · intro listed scope binding member
    rw [length]
    rw [same] at member
    exact listed scope binding member

theorem withHeap (memory : Memory) (heap : Heap) : Advances declared memory { memory with heap } :=
  ofLabels rfl rfl

theorem onHeap {α : Type} {explain : Heap.Error → Error} {action : Heap.Action α} {result : α}
    (done : Memory.onHeap explain action memory = .ok result next) :
    Advances declared memory next := by
  unfold Memory.onHeap at done
  split at done
  next =>
    cases done
    exact withHeap memory _
  next => cases done

end Advances

/-- A scope has one more binding, or is as it was. -/
theorem scope_bindFresh (memory : Memory) (scope : ScopeId) (name type : String)
    (object : Option Ref) (other : ScopeId) :
    (ending (bindFresh scope name type object memory)).scope other = memory.scope other ∨
      (ending (bindFresh scope name type object memory)).scope other =
        { memory.scope other with
          declared := (memory.scope other).declared ++ [memory.bindings.length] } :=
  scope_updateScope
    { memory with bindings := memory.bindings ++ [(⟨name, type, object⟩ : Binding)] } scope other _

theorem labels_setObject (memory : Memory) (binding : BindingId) (object : Option Ref) :
    (memory.setObject binding object).labels = memory.labels := by
  simp only [labels, setObject, updateBinding]
  apply List.ext_getElem?
  intro place
  simp only [List.getElem?_map, List.getElem?_modify]
  cases memory.bindings[place]? with
  | none => rfl
  | some held =>
      by_cases here : binding = place
      · simp [here]
      · simp [here]

theorem labels_releaseAll (rules : Heap.Discipline) (bindings : List BindingId) (memory : Memory) :
    (releaseAll rules bindings memory).2.labels = memory.labels := by
  induction bindings generalizing memory with
  | nil => rfl
  | cons binding rest ih =>
      have step : ∀ heap, ({ memory with heap }.setObject binding none).labels = memory.labels :=
        fun heap => labels_setObject { memory with heap } binding none
      cases released : rules.unref (memory.binding binding).object memory.heap with
      | ok _ heap => rw [releaseAll_of_ok released, ih, step]
      | error error heap => rw [releaseAll_of_error released, ih, step]

namespace Advances

theorem rebind (done : Memory.rebind rules binding object memory = .ok () next) :
    Advances declared memory next := by
  cases moved : rules.transfer (memory.binding binding).object object memory.heap with
  | error error heap =>
      rw [rebind_of_error moved] at done
      cases done
  | ok _ heap =>
      rw [rebind_of_ok moved] at done
      cases done
      exact ofLabels rfl (labels_setObject _ binding object)

theorem openScope (memory : Memory) (enclosing : List ScopeId) :
    Advances declared memory (ending (Memory.openScope enclosing memory)) := by
  have inside : ∀ scope < memory.scopes.length,
      (ending (Memory.openScope enclosing memory)).scope scope = memory.scope scope := by
    intro scope inside
    simp [Memory.openScope, Memory.scope, List.getElem?_append, inside]
  constructor
  · simp [Memory.openScope]
  · intro scope within
    rw [inside scope within]
  · intro scope within
    rw [inside scope within]
    exact List.Subset.refl _
  · intro scope within isOpen
    rw [inside scope within]
    exact isOpen
  · exact fun _ within => ⟨within, rfl⟩
  · exact fun _ member => .inl member
  · intro listed scope binding member
    rw [(scope_openScope memory enclosing scope).1] at member
    exact listed scope binding member

theorem retype (binding : BindingId) (named : ((memory.binding binding).name, type) ∈ declared) :
    Advances declared memory (memory.retype binding type) := by
  constructor
  · exact Nat.le_refl _
  · exact fun _ _ => rfl
  · exact fun _ _ => List.Subset.refl _
  · exact fun _ _ isOpen => isOpen
  · intro other inside
    exact ⟨by simpa [Memory.retype, updateBinding] using inside, (binding_retype ..).1⟩
  · intro label member
    obtain ⟨place, found⟩ := List.mem_iff_getElem?.1 member
    simp only [Memory.labels, Memory.retype, updateBinding, List.getElem?_map,
      List.getElem?_modify] at found
    cases held : memory.bindings[place]? with
    | none => simp [held] at found
    | some old =>
        by_cases here : binding = place
        · subst here
          have same : memory.binding binding = old := by simp [Memory.binding, held]
          simp only [held, Option.map_eq_map, Option.map_some, ↓reduceIte,
            Option.some.injEq] at found
          rw [same, found] at named
          exact .inr named
        · simp only [held, here, Option.map_eq_map, Option.map_some, ↓reduceIte,
            Option.some.injEq] at found
          exact .inl (List.mem_map.2 ⟨old, List.mem_of_getElem? held, found⟩)
  · intro listed scope other member
    simpa [Memory.retype, updateBinding] using listed scope other member

theorem bindFresh (named : (name, type) ∈ declared) (scope : ScopeId) (object : Option Ref)
    (memory : Memory) :
    Advances declared memory (ending (Memory.bindFresh scope name type object memory)) := by
  have scopes := scope_bindFresh memory scope name type object
  have length : (ending (Memory.bindFresh scope name type object memory)).bindings.length =
      memory.bindings.length + 1 := by
    simp [Memory.bindFresh, updateScope]
  have labels : (ending (Memory.bindFresh scope name type object memory)).labels =
      memory.labels ++ [(name, type)] := by
    simp [Memory.bindFresh, updateScope, Memory.labels]
  constructor
  · simp [Memory.bindFresh, updateScope]
  · intro other _
    rcases scopes other with same | changed
    · rw [same]
    · rw [changed]
  · intro other _
    rcases scopes other with same | changed
    · rw [same]
      exact List.Subset.refl _
    · rw [changed]
      exact List.subset_append_left _ _
  · intro other _ isOpen
    rcases scopes other with same | changed
    · rw [same]
      exact isOpen
    · rw [changed]
      exact isOpen
  · intro binding inside
    refine ⟨by omega, ?_⟩
    have within : binding < memory.labels.length := by simpa [Memory.labels] using inside
    rw [name_binding, labels, name_binding, List.getElem?_append_left within]
  · intro label member
    rw [labels, List.mem_append, List.mem_singleton] at member
    rcases member with earlier | rfl
    · exact .inl earlier
    · exact .inr named
  · intro listed other binding member
    rw [length]
    rcases scopes other with same | changed
    · rw [same] at member
      exact Nat.lt_succ_of_lt (listed other binding member)
    · rw [changed, List.mem_append, List.mem_singleton] at member
      rcases member with earlier | rfl
      · exact Nat.lt_succ_of_lt (listed other binding earlier)
      · exact Nat.lt_succ_self _

theorem declare (named : (name, type) ∈ declared)
    (done : Memory.declare rules scope name type object memory = .ok binding next) :
    Advances declared memory next := by
  obtain ⟨_, ⟨found, rebound⟩ | ⟨_, heap, _, fresh⟩⟩ := declare_eq_ok done
  · have here : ((memory.binding binding).name, type) ∈ declared := by
      rw [name_of_declaredIn? found]
      exact named
    exact (retype binding here).trans (rebind rebound)
  · have added := bindFresh named scope object { memory with heap }
    rw [congrArg ending fresh] at added
    exact (withHeap memory heap).trans added

/-- A scope that is closed again leaves those that were there before. -/
theorem close (advances : Advances declared memory middle)
    (inner : memory.scopes.length ≤ scope)
    (done : Memory.close rules scope middle = .ok () next) : Advances declared memory next := by
  rcases close_eq_ok done with ⟨_, rfl⟩ | ⟨_, rfl⟩
  · exact advances
  · have scopes := scopes_releaseAll rules (middle.scope scope).declared.reverse middle
    have labels := labels_releaseAll rules (middle.scope scope).declared.reverse middle
    have released : Advances declared memory
        (releaseAll rules (middle.scope scope).declared.reverse middle).2 :=
      advances.trans (ofLabels scopes labels)
    have others : ∀ place < memory.scopes.length,
        (((releaseAll rules (middle.scope scope).declared.reverse middle).2.updateScope scope
          fun scope => { scope with declared := [], closed := true }).scope place) =
        (releaseAll rules (middle.scope scope).declared.reverse middle).2.scope place := by
      intro place inside
      have apart : scope ≠ place := Nat.ne_of_gt (Nat.lt_of_lt_of_le inside inner)
      simp [Memory.scope, updateScope, apart]
    constructor
    · simpa [updateScope] using released.scopes
    · intro place inside
      rw [others place inside]
      exact released.enclosing place inside
    · intro place inside
      rw [others place inside]
      exact released.kept place inside
    · intro place inside isOpen
      rw [others place inside]
      exact released.isOpen place inside isOpen
    · exact released.named
    · exact released.labels
    · intro listed place binding member
      rcases scope_updateScope (releaseAll rules (middle.scope scope).declared.reverse middle).2
          scope place (fun scope => { scope with declared := [], closed := true }) with same | changed
      · rw [same] at member
        exact released.listed listed place binding member
      · rw [changed] at member
        cases member

end Advances

/-! ## Names that stay bound -/

theorem Binds.advances (binds : memory.Binds scope name) (listed : memory.Listed)
    (advances : Advances declared memory next) : next.Binds scope name := by
  obtain ⟨place, inChain, binding, member, named⟩ := binds
  have within := lt_of_mem_declared member
  have inside : scope < memory.scopes.length := by
    apply Classical.byContradiction
    intro outside
    have alone : (memory.scope scope).enclosing = [] := by
      simp [Memory.scope, List.getElem?_eq_none (Nat.le_of_not_lt outside)]
    rw [alone, List.mem_singleton] at inChain
    exact outside (inChain ▸ within)
  refine ⟨place, ?_, binding, advances.kept place within member, ?_⟩
  · rwa [advances.enclosing scope inside]
  · rw [(advances.named binding (listed place binding member)).2]
    exact named

/-- A scope inside another sees what is bound there. -/
theorem Binds.openChild (binds : memory.Binds scope name) {child : ScopeId}
    (done : Memory.openChild scope memory = .ok child next) : next.Binds child name := by
  obtain ⟨place, inChain, binding, member, named⟩ := binds
  have within := lt_of_mem_declared member
  cases done
  refine ⟨place, ?_, binding, ?_, named⟩
  · simp only [Memory.scope, List.getD_eq_getElem?_getD, List.getElem?_concat_length,
      Option.getD_some]
    exact .tail _ inChain
  · simpa [Memory.scope, List.getElem?_append, within] using member

/-- A name is bound once it is declared. -/
theorem binds_of_declare (listed : memory.Listed)
    (done : declare rules scope name type object memory = .ok binding next) :
    next.Binds scope name := by
  have advances : Advances [(name, type)] memory next := .declare (.head _) done
  obtain ⟨isOpen, ⟨found, _⟩ | ⟨_, heap, _, fresh⟩⟩ := declare_eq_ok done
  · have before : memory.Binds scope name :=
      ⟨scope, .head _, binding, List.mem_of_find?_eq_some found, name_of_declaredIn? found⟩
    exact before.advances listed advances
  · have inside := lt_of_isOpen isOpen
    cases fresh
    refine ⟨scope, .head _, memory.bindings.length, ?_, ?_⟩
    · simp [Memory.scope, updateScope, inside]
    · simp [Memory.binding, updateScope]

end Custody.Memory
