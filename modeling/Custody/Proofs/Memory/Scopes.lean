import Custody.Proofs.Memory.Hoarding
import Mathlib.Data.List.Nodup

/-!
# Bindings of open scopes

Only open scopes have bindings, and no binding is declared twice.  A binding that is
not declared any more holds nothing, so what is bound is what the open scopes bind.
-/

namespace Custody.Memory

variable {memory next : Memory} {rules : Heap.Discipline} {held : List Ref}
variable {opened : List ScopeId} {scope : ScopeId} {binding : BindingId}
variable {object : Option Ref} {name type : String}

/-- The bindings of some scopes. -/
def inScopes (memory : Memory) (opened : List ScopeId) : List BindingId :=
  opened.flatMap fun scope => (memory.scope scope).declared

/-- The objects that the bindings of some scopes hold. -/
def boundIn (memory : Memory) (opened : List ScopeId) : List Ref :=
  (memory.inScopes opened).flatMap fun binding => (memory.binding binding).object.toList

/-- Some scopes are all that have bindings, and only these hold objects. -/
structure Scoped (memory : Memory) (opened : List ScopeId) : Prop where
  distinct : opened.Nodup
  inside : ∀ scope ∈ opened, scope < memory.scopes.length
  apart : (memory.inScopes opened).Nodup
  outside : ∀ scope, scope ∉ opened → (memory.scope scope).declared = []
  emptied : ∀ scope, (memory.scope scope).closed = true → (memory.scope scope).declared = []
  held : ∀ binding, (memory.binding binding).object ≠ none → binding ∈ memory.inScopes opened

/-! ## Scopes and bindings after a change -/

theorem scope_updateScope_of_lt (inside : scope < memory.scopes.length) (change : Scope → Scope)
    (other : ScopeId) :
    (memory.updateScope scope change).scope other =
      if other = scope then change (memory.scope scope) else memory.scope other := by
  simp only [Memory.scope, updateScope, List.getD_eq_getElem?_getD, List.getElem?_modify]
  by_cases same : other = scope
  · subst same
    simp [inside]
  · simp [same, Ne.symm same]

theorem lt_of_isOpen (isOpen : (memory.scope scope).closed = false) :
    scope < memory.scopes.length := by
  apply Nat.lt_of_not_le
  intro outside
  simp [Memory.scope, List.getD_eq_getElem?_getD, outside] at isOpen

/-- A scope that is opened has no bindings, and the others are as they were. -/
theorem scope_openScope (memory : Memory) (enclosing : List ScopeId) (scope : ScopeId) :
    ((ending (openScope enclosing memory)).scope scope).declared = (memory.scope scope).declared ∧
      (((ending (openScope enclosing memory)).scope scope).closed = true →
        (memory.scope scope).closed = true) := by
  simp only [openScope, ending_ok, Memory.scope, List.getD_eq_getElem?_getD, List.getElem?_append]
  split
  next => exact ⟨rfl, fun closed => closed⟩
  next beyond =>
    rw [List.getElem?_eq_none (Nat.le_of_not_lt beyond)]
    cases scope - memory.scopes.length with
    | zero => exact ⟨rfl, fun _ => rfl⟩
    | succ rest => exact ⟨rfl, fun _ => rfl⟩

/-- Released bindings hold nothing, and the others are as they were. -/
theorem binding_releaseAll (rules : Heap.Discipline) (bindings : List BindingId) (memory : Memory)
    (binding : BindingId) :
    if binding ∈ bindings then
      ((releaseAll rules bindings memory).2.binding binding).object = none
    else (releaseAll rules bindings memory).2.binding binding = memory.binding binding := by
  induction bindings generalizing memory with
  | nil => exact rfl
  | cons first rest ih =>
      have step : ∃ heap, (releaseAll rules (first :: rest) memory).2 =
          (releaseAll rules rest ({ memory with heap }.setObject first none)).2 := by
        cases released : rules.unref (memory.binding first).object memory.heap with
        | ok _ heap => exact ⟨heap, by rw [releaseAll_of_ok released]⟩
        | error error heap => exact ⟨heap, by rw [releaseAll_of_error released]⟩
      obtain ⟨heap, same⟩ := step
      have later := ih ({ memory with heap }.setObject first none)
      rw [same]
      by_cases listed : binding ∈ rest
      · rw [if_pos listed] at later
        rw [if_pos (.tail _ listed)]
        exact later
      · rw [if_neg listed] at later
        rw [later]
        by_cases here : binding = first
        · subst here
          rw [if_pos (.head _)]
          cases found : memory.bindings[binding]? with
          | none => simp [setObject, Memory.binding, updateBinding, found]
          | some old => simp [setObject, Memory.binding, updateBinding, found]
        · rw [if_neg (by simp [here, listed])]
          exact binding_setObject_of_ne here

/-- Whatever a binding holds when a scope has been closed it held before, and it is none
of the bindings of that scope. -/
theorem object_of_close {ref : Ref} (done : close rules scope memory = .ok () next)
    (holds : (next.binding binding).object = some ref) :
    (memory.binding binding).object = some ref ∧
      ((memory.scope scope).closed = false → binding ∉ (memory.scope scope).declared) := by
  rcases close_eq_ok done with ⟨flag, rfl⟩ | ⟨_, rfl⟩
  · refine ⟨holds, fun isOpen => ?_⟩
    rw [flag] at isOpen
    cases isOpen
  · have emptied := binding_releaseAll rules (memory.scope scope).declared.reverse memory binding
    change ((releaseAll rules _ memory).2.binding binding).object = some ref at holds
    split at emptied
    next =>
      rw [emptied] at holds
      cases holds
    next unlisted =>
      rw [emptied] at holds
      exact ⟨holds, fun _ listed => unlisted (List.mem_reverse.2 listed)⟩

theorem scope_close (inside : scope < memory.scopes.length)
    (isOpen : (memory.scope scope).closed = false)
    (done : close rules scope memory = .ok () next) (other : ScopeId) :
    next.scope other =
      if other = scope then { memory.scope scope with declared := [], closed := true }
      else memory.scope other := by
  rcases close_eq_ok done with ⟨flag, _⟩ | ⟨_, rfl⟩
  · rw [isOpen] at flag
    cases flag
  · have scopes := scopes_releaseAll rules (memory.scope scope).declared.reverse memory
    have before : ∀ other, (releaseAll rules (memory.scope scope).declared.reverse
        memory).2.scope other = memory.scope other :=
      fun other => by rw [Memory.scope, scopes, Memory.scope]
    rw [scope_updateScope_of_lt (by rw [scopes]; exact inside), before, before]

/-- One more binding in one of several scopes. -/
theorem perm_flatMap_of_extended {before after : ScopeId → List BindingId}
    (distinct : opened.Nodup) (member : scope ∈ opened)
    (here : after scope = before scope ++ [binding])
    (others : ∀ other, other ≠ scope → after other = before other) :
    (opened.flatMap after).Perm (binding :: opened.flatMap before) := by
  obtain ⟨front, back, rfl⟩ := List.append_of_mem member
  have fresh : ∀ other ∈ front ++ back, other ≠ scope := by
    rintro other listed rfl
    exact (List.nodup_cons.1 (List.nodup_middle.1 distinct)).1 listed
  have first : front.flatMap after = front.flatMap before :=
    List.flatMap_congr fun other listed => others other (fresh other (List.mem_append_left _ listed))
  have last : back.flatMap after = back.flatMap before :=
    List.flatMap_congr fun other listed => others other (fresh other (List.mem_append_right _ listed))
  simp only [List.flatMap_append, List.flatMap_cons, first, last, here, List.append_assoc,
    List.singleton_append]
  refine (List.Perm.append_left _ List.perm_middle).trans List.perm_middle

theorem flatMap_filter_of_nil {α β : Type} {keep : α → Bool} {image : α → List β} (list : List α)
    (nothing : ∀ one ∈ list, keep one = false → image one = []) :
    (list.filter keep).flatMap image = list.flatMap image := by
  induction list with
  | nil => rfl
  | cons first rest ih =>
      have later := ih fun one member => nothing one (.tail _ member)
      rw [List.filter_cons, List.flatMap_cons]
      split
      next => rw [List.flatMap_cons, later]
      next dropped =>
        rw [nothing first (.head _) (by simpa using dropped), later, List.nil_append]

namespace Scoped

theorem ofSame (within : memory.Scoped opened) (bindings : next.bindings = memory.bindings)
    (scopes : next.scopes = memory.scopes) : next.Scoped opened := by
  obtain ⟨heap, scopesNow, bindingsNow⟩ := next
  cases bindings
  cases scopes
  exact ⟨within.distinct, within.inside, within.apart, within.outside, within.emptied, within.held⟩

/-- What is bound is what the open scopes bind. -/
theorem perm_bound (within : memory.Scoped opened)
    (known : ∀ binding ∈ memory.inScopes opened, binding < memory.bindings.length) :
    memory.bound.Perm (memory.boundIn opened) := by
  have places : memory.bound = (List.range memory.bindings.length).flatMap fun binding =>
      (memory.binding binding).object.toList := by
    have listed : memory.bindings = (List.range memory.bindings.length).map memory.binding := by
      refine List.ext_getElem (by simp) fun place inside _ => ?_
      simp [Memory.binding, List.getD_eq_getElem?_getD, inside]
    rw [bound]
    conv => lhs; rw [listed]
    rw [List.flatMap_map]
  have declared : ((List.range memory.bindings.length).filter (· ∈ memory.inScopes opened)).Perm
      (memory.inScopes opened) := by
    refine (List.perm_ext_iff_of_nodup (List.nodup_range.filter _) within.apart).2 fun binding => ?_
    simp only [List.mem_filter, List.mem_range, decide_eq_true_eq, and_iff_right_iff_imp]
    exact known binding
  have kept : ((List.range memory.bindings.length).filter (· ∈ memory.inScopes opened)).flatMap
      (fun binding => (memory.binding binding).object.toList) =
      (List.range memory.bindings.length).flatMap fun binding =>
        (memory.binding binding).object.toList := by
    refine flatMap_filter_of_nil _ fun binding _ absent => ?_
    cases holds : (memory.binding binding).object with
    | none => rfl
    | some ref =>
        have listed := within.held binding (by simp [holds])
        simp [listed] at absent
  rw [places, boundIn, ← kept]
  exact declared.flatMap_right _

theorem openScope (within : memory.Scoped opened) (enclosing : List ScopeId) :
    (ending (Memory.openScope enclosing memory)).Scoped (memory.scopes.length :: opened) := by
  have scopes := scope_openScope memory enclosing
  have fresh : (memory.scope memory.scopes.length).declared = [] := by simp [Memory.scope]
  have bindings : (ending (Memory.openScope enclosing memory)).inScopes
      (memory.scopes.length :: opened) = memory.inScopes opened := by
    simp only [inScopes, List.flatMap_cons, scopes, fresh, List.nil_append]
  refine ⟨List.nodup_cons.2 ⟨fun member => ?_, within.distinct⟩, fun scope member => ?_, ?_,
    fun scope absent => ?_, fun scope closed => ?_, fun binding holds => ?_⟩
  · exact Nat.lt_irrefl _ (within.inside _ member)
  · simp only [Memory.openScope, ending_ok, List.length_append, List.length_singleton]
    rcases List.mem_cons.1 member with rfl | earlier
    · exact Nat.lt_succ_self _
    · exact Nat.lt_succ_of_lt (within.inside scope earlier)
  · rw [bindings]
    exact within.apart
  · rw [(scopes scope).1]
    exact within.outside scope fun member => absent (.tail _ member)
  · rw [(scopes scope).1]
    exact within.emptied scope ((scopes scope).2 closed)
  · rw [bindings]
    exact within.held binding holds

theorem mem_inScopes_of_declaredIn? (within : memory.Scoped opened)
    (found : memory.declaredIn? scope name = some binding) : binding ∈ memory.inScopes opened := by
  have listed := List.mem_of_find?_eq_some found
  refine List.mem_flatMap.2 ⟨scope, ?_, listed⟩
  refine Classical.byContradiction fun absent => ?_
  rw [within.outside scope absent] at listed
  cases listed

theorem mem_inScopes_of_lookup? (within : memory.Scoped opened)
    (found : memory.lookup? scope name = some binding) : binding ∈ memory.inScopes opened := by
  obtain ⟨place, _, here⟩ := List.exists_of_findSome?_eq_some found
  exact within.mem_inScopes_of_declaredIn? here

theorem setObject (within : memory.Scoped opened) (listed : binding ∈ memory.inScopes opened)
    (object : Option Ref) : (memory.setObject binding object).Scoped opened := by
  refine ⟨within.distinct, within.inside, within.apart, within.outside, within.emptied, ?_⟩
  intro other holds
  by_cases here : other = binding
  · rw [here]
    exact listed
  · rw [binding_setObject_of_ne here] at holds
    exact within.held other holds

theorem retype (within : memory.Scoped opened) (binding : BindingId) (type : String) :
    (memory.retype binding type).Scoped opened := by
  refine ⟨within.distinct, within.inside, within.apart, within.outside, within.emptied, ?_⟩
  intro other holds
  rw [(binding_retype memory binding other type).2] at holds
  exact within.held other holds

theorem rebind (within : memory.Scoped opened) (listed : binding ∈ memory.inScopes opened)
    (done : Memory.rebind rules binding object memory = .ok () next) : next.Scoped opened := by
  cases moved : rules.transfer (memory.binding binding).object object memory.heap with
  | error error heap =>
      rw [rebind_of_error moved] at done
      cases done
  | ok _ heap =>
      rw [rebind_of_ok moved] at done
      cases done
      have same : { memory with heap }.Scoped opened := within.ofSame rfl rfl
      exact same.setObject listed object

theorem bindFresh (within : memory.Scoped opened) (member : scope ∈ opened)
    (known : ∀ binding ∈ memory.inScopes opened, binding < memory.bindings.length)
    (isOpen : (memory.scope scope).closed = false) (name type : String) (object : Option Ref) :
    (ending (Memory.bindFresh scope name type object memory)).Scoped opened := by
  have inside := within.inside scope member
  have scopes : ∀ other, (ending (Memory.bindFresh scope name type object memory)).scope other =
      if other = scope then
        { memory.scope scope with
          declared := (memory.scope scope).declared ++ [memory.bindings.length] }
      else memory.scope other := scope_updateScope_of_lt inside _
  have perm : ((ending (Memory.bindFresh scope name type object memory)).inScopes opened).Perm
      (memory.bindings.length :: memory.inScopes opened) := by
    refine perm_flatMap_of_extended within.distinct member ?_ fun other apart => ?_
    · rw [scopes, if_pos rfl]
    · rw [scopes, if_neg apart]
  refine ⟨within.distinct, fun other listed => ?_, ?_, fun other absent => ?_,
    fun other closed => ?_, fun binding holds => ?_⟩
  · simpa [Memory.bindFresh, updateScope] using within.inside other listed
  · rw [perm.nodup_iff]
    exact List.nodup_cons.2 ⟨fun listed => Nat.lt_irrefl _ (known _ listed), within.apart⟩
  · have apart : other ≠ scope := fun same => absent (same ▸ member)
    rw [scopes, if_neg apart]
    exact within.outside other absent
  · rw [scopes] at closed ⊢
    split at closed
    next => rw [isOpen] at closed; cases closed
    next apart =>
      rw [if_neg apart]
      exact within.emptied other closed
  · rw [perm.mem_iff, List.mem_cons]
    rcases Nat.lt_trichotomy binding memory.bindings.length with less | same | more
    · refine .inr (within.held binding ?_)
      simpa [Memory.bindFresh, Memory.binding, updateScope, List.getD_eq_getElem?_getD,
        List.getElem?_append, less] using holds
    · exact .inl same
    · have beyond := Nat.sub_ne_zero_of_lt more
      simp [Memory.bindFresh, Memory.binding, updateScope, List.getD_eq_getElem?_getD,
        List.getElem?_append, Nat.not_lt.2 (Nat.le_of_lt more), beyond] at holds

theorem declare (within : memory.Scoped opened) (member : scope ∈ opened)
    (known : ∀ binding ∈ memory.inScopes opened, binding < memory.bindings.length)
    (done : Memory.declare rules scope name type object memory = .ok binding next) :
    next.Scoped opened := by
  obtain ⟨isOpen, ⟨found, rebound⟩ | ⟨_, heap, _, fresh⟩⟩ := declare_eq_ok done
  · exact (within.retype binding type).rebind (within.mem_inScopes_of_declaredIn? found) rebound
  · have same : { memory with heap }.Scoped opened := within.ofSame rfl rfl
    have bound := same.bindFresh member known isOpen name type object
    rw [fresh] at bound
    exact bound

/-- A scope that is closed has no bindings any more. -/
theorem close (within : memory.Scoped (scope :: opened))
    (done : Memory.close rules scope memory = .ok () next) : next.Scoped opened := by
  obtain ⟨absent, distinct⟩ := List.nodup_cons.1 within.distinct
  have length : next.scopes.length = memory.scopes.length := by
    have same : (ending (Memory.close rules scope memory)).scopes.length = _ :=
      length_scopes_close scope memory
    rw [done] at same
    exact same
  have parts : memory.inScopes (scope :: opened) =
      (memory.scope scope).declared ++ memory.inScopes opened := rfl
  have scopes : (next.scope scope).declared = [] ∧
      ∀ other, other ≠ scope → next.scope other = memory.scope other := by
    rcases close_eq_ok done with ⟨flag, rfl⟩ | ⟨isOpen, _⟩
    · exact ⟨within.emptied scope flag, fun _ _ => rfl⟩
    · have now := scope_close (within.inside scope (.head _)) isOpen done
      exact ⟨by rw [now, if_pos rfl], fun other apart => by rw [now, if_neg apart]⟩
  obtain ⟨cleared, others⟩ := scopes
  have bindings : next.inScopes opened = memory.inScopes opened := by
    refine List.flatMap_congr fun other member => ?_
    have apart : other ≠ scope := fun same => absent (same ▸ member)
    rw [others other apart]
  refine ⟨distinct, fun other member => ?_, ?_, fun other outside => ?_,
    fun other isClosed => ?_, fun binding holds => ?_⟩
  · rw [length]
    exact within.inside other (.tail _ member)
  · rw [bindings]
    have apart := within.apart
    rw [parts] at apart
    exact (List.nodup_append.1 apart).2.1
  · by_cases here : other = scope
    · rw [here, cleared]
    · rw [others other here]
      exact within.outside other (by simp [here, outside])
  · by_cases here : other = scope
    · rw [here, cleared]
    · rw [others other here] at isClosed ⊢
      exact within.emptied other isClosed
  · obtain ⟨ref, bound⟩ := Option.ne_none_iff_exists'.1 holds
    obtain ⟨earlier, unlisted⟩ := object_of_close done bound
    have listed := within.held binding (by simp [earlier])
    rw [parts, List.mem_append] at listed
    rw [bindings]
    refine listed.resolve_left fun here => ?_
    cases flag : (memory.scope scope).closed with
    | true =>
        rw [within.emptied scope flag] at here
        cases here
    | false => exact unlisted flag here

end Scoped

end Custody.Memory
