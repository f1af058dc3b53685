import Custody.Proofs.Heap.Ledger
import Custody.Proofs.Memory.Soundness

/-!
# Sessions on a memory

A session takes a memory without objects through any commands on its heap, its
scopes and its bindings, refused ones included.  Bindings own one reference each:
what they hold is live, and every scope can be closed at any time.

The count of a live object is the number of its bindings and of the fields of live
objects that hold it, as long as no command makes an object give up its last
holder, itself, for another occupant.  Once all scopes are closed and the heap has
been swept, what is left then is held by cycles.  Bindings outlive their scope, so
this is for sessions that rebind none whose scope has been closed.
-/

namespace Custody.Memory

variable {memory : Memory} {held : List Ref}

/-- What can be asked of a memory. -/
inductive Command where
  | allocate (type : String) (isExternal : Bool)
  | setField (owner : Option Ref) (name : String) (value : Option Ref)
  | sweep
  | openRoot
  | openChild (parent : ScopeId)
  | declare (scope : ScopeId) (name type : String) (object : Option Ref)
  | rebind (binding : BindingId) (object : Option Ref)
  | close (scope : ScopeId)
  deriving DecidableEq

namespace Command

/-- The memory after a command, whether it is carried out or refused.  There is no
rebinding what has never been declared. -/
def perform (memory : Memory) : Command → Memory
  | allocate type isExternal => ending (onHeap .heap (Heap.allocate type isExternal) memory)
  | setField owner name value => ending (onHeap .heap (Heap.setField owner name value) memory)
  | sweep => ending (onHeap .heap Heap.sweep memory)
  | openRoot => ending (Memory.openRoot memory)
  | openChild parent => ending (Memory.openChild parent memory)
  | declare scope name type object =>
      ending (Memory.declare .counting scope name type object memory)
  | rebind binding object =>
      if binding < memory.bindings.length then
        ending (Memory.rebind .counting binding object memory)
      else memory
  | close scope => ending (Memory.close .counting scope memory)

/-- A command that makes an object give up itself, its last holder, for another
occupant. -/
def Orphans (memory : Memory) : Command → Prop
  | setField owner name value => memory.heap.Orphans owner name value
  | _ => False

/-- A command that rebinds a binding of a scope that has been closed. -/
def Late (memory : Memory) : Command → Prop
  | rebind binding _ =>
      binding < memory.bindings.length ∧ ∀ scope, binding ∉ (memory.scope scope).declared
  | _ => False

end Command

/-- The memory after several commands. -/
def after (memory : Memory) (commands : List Command) : Memory :=
  commands.foldl Command.perform memory

/-- A memory without objects that has been through some commands. -/
def session (lastId : Nat) (commands : List Command) : Memory :=
  (ofHeap (.startingAfter lastId)).after commands

/-- The count of a live object is the number of the bindings and of the fields of
live objects that hold it. -/
def Exact (memory : Memory) : Prop :=
  ∀ ref, memory.heap.Live ref →
    (memory.heap.object ref).count = memory.bound.count ref + memory.heap.liveSlots ref

/-- What is bound is live, every scope can be closed, and closing it again does
nothing. -/
structure Guarded (memory : Memory) : Prop where
  bound : ∀ binding ref, (memory.binding binding).object = some ref → memory.heap.Live ref
  close : ∀ scope, ∃ next, Memory.close .counting scope memory = .ok () next ∧
    Memory.close .counting scope next = .ok () next

/-- A sweep is carried out and leaves only what cycles lead to. -/
def LeavesCycles (memory : Memory) : Prop :=
  ∃ heap, Heap.sweep memory.heap = .ok () heap ∧ ∀ ref, heap.Live ref → heap.HeldByCycle ref

/-- Bindings own exactly one reference each at every moment of a session. -/
structure Accountable (lastId : Nat) (commands : List Command) : Prop where
  exact : ∀ past, past <+: commands → (session lastId past).Exact
  guarded : ∀ past, past <+: commands → (session lastId past).Guarded
  left : ∀ past, past <+: commands →
    (∀ earlier command, earlier ++ [command] <+: past → ¬command.Late (session lastId earlier)) →
    (∀ scope, ((session lastId past).scope scope).closed = true) →
    (session lastId past).LeavesCycles

theorem session_append (lastId : Nat) (past : List Command) (command : Command) :
    session lastId (past ++ [command]) = command.perform (session lastId past) := by
  simp [session, after]

/-! ## Every command keeps the counts -/

theorem Owned.ending_rebind {binding : BindingId} (owned : memory.Owned held)
    (inside : binding < memory.bindings.length) (object : Option Ref) :
    (ending (Memory.rebind .counting binding object memory)).Owned held := by
  rcases owned.rebind inside object with ⟨error, refused, _⟩ | ⟨heap, _, done, kept⟩
  · rw [refused]
    exact owned
  · rw [done]
    exact kept

/-- A declaration that is refused may have changed the type of its binding. -/
theorem Owned.ending_declare (owned : memory.Owned held) (scope : ScopeId) (name type : String)
    (object : Option Ref) :
    (ending (Memory.declare .counting scope name type object memory)).Owned held := by
  cases done : Memory.declare .counting scope name type object memory with
  | ok binding next =>
      rcases owned.declare scope name type object with
        ⟨error, _, refused, _⟩ | ⟨_, _, declared, kept, _⟩
      · rw [done] at refused
        cases refused
      · rw [done] at declared
        cases declared
        exact kept
  | error error next =>
      unfold Memory.declare at done
      split at done
      next =>
        cases done
        exact owned
      next =>
        split at done
        next binding found =>
          have retyped := owned.updateBinding (fun held => { held with type }) (fun _ => rfl) binding
          have kept := retyped.ending_rebind
            (by simpa [Memory.updateBinding] using owned.lt_of_declaredIn? found) object
          split at done
          next => cases done
          next refused =>
            cases done
            rw [refused] at kept
            exact kept
        next =>
          cases object with
          | none => cases done
          | some ref =>
              cases gone : (memory.heap.object ref).released with
              | true =>
                  simp only [Heap.Discipline.counting, Memory.onHeap, Heap.ref, gone,
                    ↓reduceIte] at done
                  cases done
                  exact owned
              | false =>
                  simp only [Heap.Discipline.counting, Memory.onHeap, Heap.ref, gone,
                    Bool.false_eq_true, ↓reduceIte] at done
                  cases done

theorem Owned.perform (owned : memory.Owned held) (command : Command) :
    (command.perform memory).Owned held := by
  cases command with
  | allocate type isExternal => exact owned.allocate type isExternal
  | setField owner name value =>
      rcases owned.balanced.setField owned.settled owner name value with
        ⟨error, refused, _⟩ | ⟨heap, done, balanced, settled⟩
      · simp only [Command.perform, Memory.onHeap, refused]
        exact owned
      · simp only [Command.perform, Memory.onHeap, done]
        exact owned.onHeap balanced settled
  | sweep =>
      obtain ⟨heap, swept, balanced, settled⟩ := owned.balanced.sweep
      simp only [Command.perform, Memory.onHeap, swept]
      exact owned.onHeap balanced settled
  | openRoot => exact owned.openScope []
  | openChild parent => exact owned.openScope _
  | declare scope name type object => exact owned.ending_declare scope name type object
  | rebind binding object =>
      simp only [Command.perform]
      split
      next inside => exact owned.ending_rebind inside object
      next => exact owned
  | close scope =>
      obtain ⟨next, done, kept⟩ := owned.close scope
      simp only [Command.perform, done]
      exact kept

theorem owned_session (lastId : Nat) (commands : List Command) :
    (session lastId commands).Owned [] := by
  induction commands using List.reverseRecOn with
  | nil => exact .ofHeap lastId
  | append_singleton past command ih =>
      rw [session_append]
      exact ih.perform command

/-- A stable property that new objects and new occupants keep is kept by every
command. -/
theorem perform_keeps {property : Heap → Prop} (stable : Heap.Stable property)
    (holds : property memory.heap) (command : Command)
    (extended : ∀ type isExternal, property (memory.heap.extended type isExternal))
    (set : ∀ owner name value, command = .setField owner name value →
      property (ending (Heap.setField owner name value memory.heap))) :
    property (command.perform memory).heap := by
  have onHeap : ∀ {α : Type} (action : Heap.Action α), property (ending (action memory.heap)) →
      property (ending (Memory.onHeap .heap action memory)).heap := by
    intro α action kept
    cases done : action memory.heap with
    | ok result heap => simpa only [Memory.onHeap, done, ending_ok] using kept
    | error error heap => simpa only [Memory.onHeap, done, ending_error] using kept
  cases command with
  | allocate type isExternal => exact extended type isExternal
  | setField owner name value => exact onHeap _ (set owner name value rfl)
  | sweep => exact onHeap _ (stable.sweep holds)
  | openRoot => exact holds
  | openChild parent => exact holds
  | declare scope name type object => exact stable_declare stable holds scope name type object
  | rebind binding object =>
      simp only [Command.perform]
      split
      · exact stable_rebind stable holds binding object
      · exact holds
  | close scope => exact stable_close stable holds scope

theorem indexed_session (lastId : Nat) (commands : List Command) :
    (session lastId commands).heap.Indexed := by
  induction commands using List.reverseRecOn with
  | nil => exact .startingAfter lastId
  | append_singleton past command ih =>
      rw [session_append]
      apply perform_keeps Heap.Indexed.stable ih
      · exact ih.extended
      · intro owner name value _
        exact ih.setField owner name value

/-- A command keeps the heap tidy exactly if it orphans nothing. -/
theorem tidy_perform_iff (tidy : memory.heap.Tidy) (command : Command) :
    (command.perform memory).heap.Tidy ↔ ¬command.Orphans memory := by
  constructor
  · intro kept orphans
    cases command with
    | setField owner name value =>
        have untidy := Heap.Tidy.not_setField orphans
        apply untidy
        cases done : Heap.setField owner name value memory.heap with
        | ok _ heap => simpa only [Command.perform, onHeap, done, ending_ok] using kept
        | error error heap => simpa only [Command.perform, onHeap, done, ending_error] using kept
    | _ => exact orphans
  · intro fine
    apply perform_keeps Heap.Tidy.stable tidy
    · exact tidy.extended
    · intro owner name value isSet
      subst isSet
      exact tidy.setField fine

/-! ## Open scopes hold what is bound -/

/-- Closed scopes have no bindings, and whatever is bound is bound in some scope. -/
structure Housed (memory : Memory) : Prop where
  emptied : ∀ scope, (memory.scope scope).closed = true → (memory.scope scope).declared = []
  placed : ∀ binding ref, (memory.binding binding).object = some ref →
    ∃ scope, binding ∈ (memory.scope scope).declared

namespace Housed

variable {next : Memory} {binding : BindingId} {scope : ScopeId} {object : Option Ref}
variable {name type : String}

theorem ofHeap (heap : Heap) : (ofHeap heap).Housed where
  emptied scope _ := by simp [Memory.ofHeap, Memory.scope]
  placed binding ref holds := by simp [Memory.ofHeap, Memory.binding] at holds

/-- Scopes stay as they are, and one of their bindings may hold another object. -/
theorem ofScopes (housed : memory.Housed) (scopes : next.scopes = memory.scopes)
    (objects : ∀ binding ref, (next.binding binding).object = some ref →
      (memory.binding binding).object = some ref ∨
        ∃ scope, binding ∈ (memory.scope scope).declared) : next.Housed := by
  have same : ∀ scope, next.scope scope = memory.scope scope := by
    intro scope
    rw [Memory.scope, scopes, Memory.scope]
  constructor
  · intro scope closed
    rw [same] at closed ⊢
    exact housed.emptied scope closed
  · intro binding ref holds
    simp only [same]
    rcases objects binding ref holds with before | place
    · exact housed.placed binding ref before
    · exact place

theorem openScope (housed : memory.Housed) (enclosing : List ScopeId) :
    (ending (Memory.openScope enclosing memory)).Housed := by
  have scopes := scope_openScope memory enclosing
  constructor
  · intro scope closed
    rw [(scopes scope).1]
    exact housed.emptied scope ((scopes scope).2 closed)
  · intro binding ref holds
    simp only [scopes]
    exact housed.placed binding ref holds

theorem rebind (housed : memory.Housed) (listed : binding ∈ (memory.scope scope).declared)
    (object : Option Ref) :
    (ending (Memory.rebind .counting binding object memory)).Housed := by
  cases moved : Heap.Discipline.counting.transfer (memory.binding binding).object object
      memory.heap with
  | error error heap =>
      rw [rebind_of_error moved]
      exact housed.ofScopes rfl fun _ _ holds => .inl holds
  | ok done heap =>
      rw [rebind_of_ok moved]
      refine housed.ofScopes rfl ?_
      intro other ref holds
      by_cases same : other = binding
      · rw [same]
        exact .inr ⟨scope, listed⟩
      · rw [ending_ok, binding_setObject_of_ne same] at holds
        exact .inl holds

theorem bindFresh (housed : memory.Housed) (inside : scope < memory.scopes.length)
    (isOpen : (memory.scope scope).closed = false) (name type : String) (object : Option Ref) :
    (ending (Memory.bindFresh scope name type object memory)).Housed := by
  have scopes : ∀ other, (ending (Memory.bindFresh scope name type object memory)).scope other =
      if other = scope then
        { memory.scope scope with
          declared := (memory.scope scope).declared ++ [memory.bindings.length] }
      else memory.scope other := scope_updateScope_of_lt inside _
  constructor
  · intro other closed
    rw [scopes] at closed ⊢
    split at closed
    next =>
      rw [isOpen] at closed
      cases closed
    next apart =>
      rw [if_neg apart]
      exact housed.emptied other closed
  · intro binding ref holds
    rcases Nat.lt_trichotomy binding memory.bindings.length with less | same | more
    · have before : (memory.binding binding).object = some ref := by
        simpa [Memory.bindFresh, Memory.binding, updateScope, List.getD_eq_getElem?_getD,
          List.getElem?_append, less] using holds
      obtain ⟨place, listed⟩ := housed.placed binding ref before
      refine ⟨place, ?_⟩
      rw [scopes]
      split
      next here =>
        rw [here] at listed
        exact List.mem_append_left _ listed
      next => exact listed
    · refine ⟨scope, ?_⟩
      rw [scopes, if_pos rfl, same]
      exact List.mem_append_right _ List.mem_cons_self
    · have beyond := Nat.sub_ne_zero_of_lt more
      simp [Memory.bindFresh, Memory.binding, updateScope, List.getD_eq_getElem?_getD,
        List.getElem?_append, Nat.not_lt.2 (Nat.le_of_lt more), beyond] at holds

theorem retype (housed : memory.Housed) (binding : BindingId) (type : String) :
    (memory.retype binding type).Housed := by
  refine housed.ofScopes rfl ?_
  intro other ref holds
  rw [(binding_retype memory binding other type).2] at holds
  exact .inl holds

theorem declare (housed : memory.Housed) (scope : ScopeId) (name type : String)
    (object : Option Ref) :
    (ending (Memory.declare .counting scope name type object memory)).Housed := by
  unfold Memory.declare
  split
  next => exact housed
  next isOpen =>
    have isOpen : (memory.scope scope).closed = false := by simpa using isOpen
    split
    next binding found =>
      have listed : binding ∈ ((memory.retype binding type).scope scope).declared :=
        List.mem_of_find?_eq_some found
      have kept := (housed.retype binding type).rebind listed object
      rw [Memory.retype] at kept
      split
      next done =>
        rw [done] at kept
        exact kept
      next refused =>
        rw [refused] at kept
        exact kept
    next =>
      cases taken : Heap.Discipline.counting.ref object memory.heap with
      | ok _ heap =>
          simp only [onHeap, taken]
          have same : { memory with heap }.Housed :=
            housed.ofScopes rfl fun _ _ holds => .inl holds
          exact same.bindFresh (lt_of_isOpen isOpen) isOpen name type object
      | error error heap =>
          simp only [onHeap, taken]
          exact housed.ofScopes rfl fun _ _ holds => .inl holds

theorem close (housed : memory.Housed)
    (done : Memory.close .counting scope memory = .ok () next) : next.Housed := by
  cases flag : (memory.scope scope).closed with
  | true =>
      rcases close_eq_ok done with ⟨_, rfl⟩ | ⟨isOpen, _⟩
      · exact housed
      · rw [flag] at isOpen
        cases isOpen
  | false =>
      have scopes := scope_close (lt_of_isOpen flag) flag done
      constructor
      · intro other closed
        rw [scopes] at closed ⊢
        split at closed
        next here => rw [if_pos here]
        next apart =>
          rw [if_neg apart]
          exact housed.emptied other closed
      · intro binding ref holds
        obtain ⟨before, unlisted⟩ := object_of_close done holds
        obtain ⟨place, listed⟩ := housed.placed binding ref before
        refine ⟨place, ?_⟩
        rw [scopes, if_neg ?_]
        · exact listed
        · intro here
          rw [here] at listed
          exact unlisted flag listed

theorem perform (housed : memory.Housed) (owned : memory.Owned held) {command : Command}
    (timely : ¬command.Late memory) : (command.perform memory).Housed := by
  have onHeap : ∀ {α : Type} (action : Heap.Action α),
      (ending (Memory.onHeap .heap action memory)).Housed := by
    intro α action
    cases done : action memory.heap with
    | ok result heap =>
        simp only [Memory.onHeap, done]
        exact housed.ofScopes rfl fun _ _ holds => .inl holds
    | error error heap =>
        simp only [Memory.onHeap, done]
        exact housed.ofScopes rfl fun _ _ holds => .inl holds
  cases command with
  | allocate type isExternal => exact onHeap (Heap.allocate type isExternal)
  | setField owner name value => exact onHeap (Heap.setField owner name value)
  | sweep => exact onHeap Heap.sweep
  | openRoot => exact housed.openScope []
  | openChild parent => exact housed.openScope _
  | declare scope name type object => exact housed.declare scope name type object
  | rebind binding object =>
      simp only [Command.perform]
      split
      next inside =>
        simp only [Command.Late, not_and, not_forall, Decidable.not_not] at timely
        obtain ⟨scope, listed⟩ := timely inside
        exact housed.rebind listed object
      next => exact housed
  | close scope =>
      obtain ⟨next, done, _⟩ := owned.close scope
      simp only [Command.perform, done]
      exact housed.close done

/-- Where every scope is closed, nothing is bound. -/
theorem bound_eq_nil (housed : memory.Housed)
    (closed : ∀ scope, (memory.scope scope).closed = true) : memory.bound = [] := by
  apply List.eq_nil_iff_forall_not_mem.2
  intro ref member
  obtain ⟨binding, holds⟩ := mem_bound_iff.1 member
  obtain ⟨scope, listed⟩ := housed.placed binding ref holds
  rw [housed.emptied scope (closed scope)] at listed
  cases listed

end Housed

theorem housed_session (lastId : Nat) (commands : List Command)
    (timely : ∀ earlier command, earlier ++ [command] <+: commands →
      ¬command.Late (session lastId earlier)) : (session lastId commands).Housed := by
  induction commands using List.reverseRecOn with
  | nil => exact .ofHeap _
  | append_singleton past command ih =>
      rw [session_append]
      have before := ih fun earlier other within =>
        timely earlier other (within.trans (List.prefix_append past [command]))
      exact before.perform (owned_session lastId past) (timely past command (List.prefix_refl _))

/-! ## Accountable sessions -/

/-- In a sound memory the counts are exact exactly if removed objects own nothing. -/
theorem Owned.exact_iff_tidy (owned : memory.Owned []) (indexed : memory.heap.Indexed) :
    memory.Exact ↔ memory.heap.Tidy := by
  have counted : ∀ ref, (memory.heap.object ref).count =
      memory.bound.count ref + memory.heap.fieldValues.count ref := by
    intro ref
    have count := owned.balanced.count ref
    rw [Heap.references, owned.settled, List.count_nil, List.append_nil] at count
    omega
  constructor
  · intro exact
    apply Heap.tidy_of_liveSlots indexed owned.balanced
    intro ref live
    have counts := exact ref live
    have count := counted ref
    omega
  · intro tidy ref _
    rw [Heap.Books.liveSlots_eq indexed tidy]
    exact counted ref

theorem Owned.guarded (owned : memory.Owned []) (indexed : memory.heap.Indexed) :
    memory.Guarded := by
  constructor
  · intro binding ref holds
    have member := mem_bound_iff.2 ⟨binding, holds⟩
    exact indexed.live_iff.2 (owned.balanced.not_released_of_mem (List.mem_append_left _ member))
  · intro scope
    obtain ⟨next, done, _⟩ := owned.close scope
    refine ⟨next, done, ?_⟩
    rcases close_eq_ok done with ⟨closed, rfl⟩ | ⟨isOpen, _⟩
    · exact done
    · have closed : (next.scope scope).closed = true := by
        rw [scope_close (lt_of_isOpen isOpen) isOpen done, if_pos rfl]
      simp [Memory.close, closed]

/-- Where nothing is bound and removed objects own nothing, a sweep leaves the cycles
and what they lead to. -/
theorem Owned.leavesCycles (owned : memory.Owned []) (indexed : memory.heap.Indexed)
    (tidy : memory.heap.Tidy) (unbound : memory.bound = []) : memory.LeavesCycles := by
  have balanced : memory.heap.Balanced [] := by
    have balanced := owned.balanced
    rw [unbound] at balanced
    exact balanced
  obtain ⟨heap, swept, after, settled⟩ := balanced.sweep
  have tidy : heap.Tidy := by
    have kept := Heap.Tidy.stable.sweep tidy
    rw [swept] at kept
    exact kept
  refine ⟨heap, swept, ?_⟩
  intro ref live
  have listed : heap.Indexed := by
    have kept := Heap.Indexed.stable.sweep indexed
    rw [swept] at kept
    exact kept
  have thrifty := Heap.Thrifty.of_sweep indexed balanced swept
  exact thrifty.heldByCycle after settled tidy (listed.live_iff.1 live)

/-- Bindings hold live objects and scopes are closed without failure in every session;
bindings own exactly one reference each, so that only cycles outlast them, exactly if
no command orphans an object. -/
theorem accountable_iff_not_orphans (lastId : Nat) (commands : List Command) :
    (session lastId commands).Guarded ∧
      (Accountable lastId commands ↔
        ∀ past command, past ++ [command] <+: commands →
          ¬command.Orphans (session lastId past)) := by
  have guarded : ∀ past, (session lastId past).Guarded := fun past =>
    (owned_session lastId past).guarded (indexed_session lastId past)
  have exact_iff : ∀ past, (session lastId past).Exact ↔ (session lastId past).heap.Tidy :=
    fun past => (owned_session lastId past).exact_iff_tidy (indexed_session lastId past)
  refine ⟨guarded commands, ?_, ?_⟩
  · intro accountable past command within
    have before := (exact_iff past).1
      (accountable.exact past ((List.prefix_append past [command]).trans within))
    have next := (exact_iff _).1 (accountable.exact (past ++ [command]) within)
    rw [session_append] at next
    exact (tidy_perform_iff before command).1 next
  · intro fine
    have tidy : ∀ past, past <+: commands → (session lastId past).heap.Tidy := by
      intro past
      induction past using List.reverseRecOn with
      | nil =>
          intro _
          exact .startingAfter lastId
      | append_singleton past command ih =>
          intro within
          rw [session_append]
          have before := ih ((List.prefix_append past [command]).trans within)
          exact (tidy_perform_iff before command).2 (fine past command within)
    constructor
    · intro past within
      exact (exact_iff past).2 (tidy past within)
    · intro past _
      exact guarded past
    · intro past within timely closed
      have housed := housed_session lastId past timely
      exact (owned_session lastId past).leavesCycles (indexed_session lastId past)
        (tidy past within) (housed.bound_eq_nil closed)

/-- A variable holds an object that holds itself, lets it go, and the object is given
another occupant. -/
def forsaken : List Command :=
  [.openRoot, .allocate "A" false, .declare 0 "v" "A" (some 0), .setField (some 0) "x" (some 0),
    .rebind 0 none, .allocate "B" false, .setField (some 0) "x" (some 1), .close 0]

/-- The occupant is counted though nothing holds it, and outlasts a sweep without any
cycle. -/
theorem not_accountable_forsaken : ¬Accountable 0 forsaken := by
  intro accountable
  have exact := accountable.exact forsaken (List.prefix_refl forsaken)
  have live : (session 0 forsaken).heap.Live 1 := ⟨by decide +kernel, by decide +kernel⟩
  have counted : ((session 0 forsaken).heap.object 1).count = 1 := by decide +kernel
  have bound : (session 0 forsaken).bound.count 1 = 0 := by decide +kernel
  have owned : (session 0 forsaken).heap.liveSlots 1 = 0 := by decide +kernel
  have count := exact 1 live
  omega

end Custody.Memory
