import Custody.Proofs.Heap.Survival
import Custody.Proofs.Memory.Scopes

/-!
# Sound memories

A memory is sound if its counts are the references that there are, its index lists the
objects that are there, and only its open scopes have bindings.  Every operation keeps
a memory sound or is refused, and none is refused for releasing an object twice.
Closing all scopes leaves the bindings without objects.
-/

namespace Custody.Memory

variable {memory next : Memory} {held : List Ref} {opened : List ScopeId} {scope : ScopeId}
variable {binding : BindingId} {object : Option Ref} {name type : String} {error : Error}

/-- An operation ends as it should, or it is refused without releasing anything twice. -/
def Meets {α : Type} (after : α → Memory → Prop) : EStateM.Result Error Memory α → Prop
  | .ok result memory => after result memory
  | .error error _ => error.isDoubleRelease = false

/-! ## Refusals -/

theorem Owned.isDoubleRelease_rebind (owned : memory.Owned held)
    (inside : binding < memory.bindings.length)
    (refused : Memory.rebind .counting binding object memory = .error error next) :
    error.isDoubleRelease = false := by
  rcases owned.rebind inside object with ⟨_, _, gone⟩ | ⟨heap, _, done, _⟩
  · rcases Heap.transfer_cases memory.heap (memory.binding binding).object object with
      ⟨cause, unmoved, use, _⟩ | ⟨_, idle⟩ | ⟨_, available, _⟩
    · rw [rebind_of_error unmoved] at refused
      cases refused
      simp [Error.isDoubleRelease, Error.causes, use]
    · rw [rebind_of_ok idle] at refused
      cases refused
    · rw [available] at gone
      cases gone
  · rw [done] at refused
    cases refused

theorem Owned.isDoubleRelease_declare (owned : memory.Owned held)
    (refused : Memory.declare .counting scope name type object memory = .error error next) :
    error.isDoubleRelease = false := by
  unfold Memory.declare at refused
  split at refused
  next =>
    cases refused
    rfl
  next =>
    cases found : memory.declaredIn? scope name with
    | some binding =>
        have retyped := owned.updateBinding (fun held => { held with type }) (fun _ => rfl) binding
        have inside : binding < (memory.retype binding type).bindings.length := by
          simpa [retype, Memory.updateBinding] using owned.lt_of_declaredIn? found
        rw [found] at refused
        dsimp only at refused
        split at refused
        next => cases refused
        next unbound =>
          cases refused
          exact Owned.isDoubleRelease_rebind retyped inside unbound
    | none =>
        rw [found] at refused
        cases object with
        | none => cases refused
        | some ref =>
            cases gone : (memory.heap.object ref).released with
            | true =>
                simp only [Heap.Discipline.counting, Memory.onHeap, Heap.ref, gone, ↓reduceIte] at refused
                cases refused
                rfl
            | false =>
                simp only [Heap.Discipline.counting, Memory.onHeap, Heap.ref, gone, Bool.false_eq_true,
                  ↓reduceIte] at refused
                cases refused

/-! ## What is bound afterwards -/

theorem mem_bound_iff {ref : Ref} :
    ref ∈ memory.bound ↔ ∃ binding, (memory.binding binding).object = some ref := by
  constructor
  · intro member
    obtain ⟨found, listed, holds⟩ := List.mem_flatMap.1 member
    obtain ⟨binding, inside, rfl⟩ := List.mem_iff_getElem.1 listed
    refine ⟨binding, ?_⟩
    simpa [Memory.binding, List.getD_eq_getElem?_getD, inside] using holds
  · rintro ⟨binding, holds⟩
    refine mem_bound ?_ holds
    refine Nat.lt_of_not_le fun outside => ?_
    simp [Memory.binding, List.getD_eq_getElem?_getD, outside] at holds

/-- What a binding holds is there. -/
theorem Owned.not_released_of_object (owned : memory.Owned held) {ref : Ref}
    (holds : (memory.binding binding).object = some ref) :
    (memory.heap.object ref).released = false :=
  owned.balanced.not_released_of_mem (List.mem_append_left _ (mem_bound_iff.2 ⟨binding, holds⟩))

/-- Objects are only counted and released, and one object at most is bound that was not
bound before. -/
structure Shifts (memory next : Memory) (object : Option Ref) : Prop where
  stable : ∀ {property : Heap → Prop}, Heap.Stable property → property memory.heap →
    property next.heap
  bound : ∀ ref ∈ next.bound, ref ∈ memory.bound ∨ object = some ref

/-- Whatever a binding holds that is not new was bound before. -/
theorem bound_of_objects
    (earlier : ∀ binding ref, (next.binding binding).object = some ref → object ≠ some ref →
      (memory.binding binding).object = some ref) :
    ∀ ref ∈ next.bound, ref ∈ memory.bound ∨ object = some ref := by
  intro ref member
  obtain ⟨binding, holds⟩ := mem_bound_iff.1 member
  by_cases same : object = some ref
  · exact .inr same
  · exact .inl (mem_bound_iff.2 ⟨binding, earlier binding ref holds same⟩)

namespace Shifts

theorem decays (shifts : memory.Shifts next object) : memory.heap.Decays next.heap :=
  shifts.stable (Heap.Decays.stable memory.heap) (.refl memory.heap)

theorem rebind (done : Memory.rebind .counting binding object memory = .ok () next) :
    memory.Shifts next object where
  stable := by
    intro property stable holds
    have kept := stable_rebind stable holds binding object
    rw [done] at kept
    exact kept
  bound := bound_of_objects fun _ _ => object_of_rebind done

theorem declare
    (done : Memory.declare .counting scope name type object memory = .ok binding next) :
    memory.Shifts next object where
  stable := by
    intro property stable holds
    have kept := stable_declare stable holds scope name type object
    rw [done] at kept
    exact kept
  bound := bound_of_objects fun _ _ => object_of_declare done

theorem close (done : Memory.close .counting scope memory = .ok () next) :
    memory.Shifts next none where
  stable := by
    intro property stable holds
    have kept := stable_close stable holds scope
    rw [done] at kept
    exact kept
  bound := bound_of_objects fun _ _ holds _ => (object_of_close done holds).1

end Shifts

/-! ## Soundness -/

/-- The counts are right, the index is right, and only open scopes have bindings. -/
structure Sound (memory : Memory) (held : List Ref) (opened : List ScopeId) : Prop where
  owned : memory.Owned held
  indexed : memory.heap.Indexed
  within : memory.Scoped opened

namespace Sound

theorem ofHeap (lastId : Nat) : (ofHeap (.startingAfter lastId)).Sound [] [] where
  owned := .ofHeap lastId
  indexed := .startingAfter lastId
  within := by
    refine ⟨.nil, ?_, .nil, fun _ _ => rfl, fun _ _ => rfl, fun _ holds => (holds rfl).elim⟩
    intro scope member
    cases member

theorem known (sound : memory.Sound held opened) (listed : binding ∈ memory.inScopes opened) :
    binding < memory.bindings.length := by
  obtain ⟨scope, _, declared⟩ := List.mem_flatMap.1 listed
  exact sound.owned.declared scope binding declared

theorem perm_bound (sound : memory.Sound held opened) :
    memory.bound.Perm (memory.boundIn opened) :=
  sound.within.perm_bound fun _ => sound.known

theorem congr {others : List Ref} (sound : memory.Sound held opened)
    (same : ∀ ref, held.count ref = others.count ref) : memory.Sound others opened :=
  ⟨sound.owned.congr same, sound.indexed, sound.within⟩

theorem openScope (sound : memory.Sound held opened) (enclosing : List ScopeId) :
    (ending (Memory.openScope enclosing memory)).Sound held (memory.scopes.length :: opened) :=
  ⟨sound.owned.openScope enclosing, sound.indexed, sound.within.openScope enclosing⟩

theorem withNew (sound : memory.Sound held opened) (type : String) (isExternal : Bool) :
    (memory.withNew type isExternal).Sound held opened :=
  ⟨sound.owned.allocate type isExternal, sound.indexed.extended type isExternal,
    sound.within.ofSame rfl rfl⟩

theorem hold (sound : memory.Sound held opened) {ref : Ref}
    (present : (memory.heap.object ref).released = false) :
    { memory with heap := memory.heap.update ref .raise }.Sound (ref :: held) opened :=
  ⟨sound.owned.hold present, Heap.Indexed.stable.raise ref sound.indexed,
    sound.within.ofSame rfl rfl⟩

/-- A field is set, or nothing happens. -/
theorem setField (sound : memory.Sound held opened) (owner : Option Ref) (name : String)
    (value : Option Ref) :
    (∃ error, Heap.setField owner name value memory.heap = .error error memory.heap ∧
        error.isDoubleRelease = false) ∨
      ∃ heap, Heap.setField owner name value memory.heap = .ok () heap ∧
        { memory with heap }.Sound held opened := by
  rcases sound.owned.balanced.setField sound.owned.settled owner name value with
    ⟨error, refused, use, _⟩ | ⟨heap, done, balanced, settled⟩
  · exact .inl ⟨error, refused, use⟩
  · have indexed := sound.indexed.setField owner name value
    rw [done] at indexed
    exact .inr ⟨heap, done, sound.owned.onHeap balanced settled, indexed,
      sound.within.ofSame rfl rfl⟩

/-- A field of an object that is there can be set to an object that is there. -/
theorem exists_setField (sound : memory.Sound held opened) {owner : Ref} {value : Option Ref}
    (present : (memory.heap.object owner).released = false)
    (available : memory.heap.isReleased value = false) (name : String) :
    ∃ heap, Heap.setField (some owner) name value memory.heap = .ok () heap ∧
      { memory with heap }.Sound held opened := by
  rcases sound.setField (some owner) name value with ⟨_, refused, _⟩ | set
  · rcases sound.owned.balanced.setField sound.owned.settled (some owner) name value with
      ⟨_, _, _, reason⟩ | ⟨_, done, _⟩
    · rcases reason owner rfl with gone | gone
      · rw [present] at gone
        cases gone
      · rw [available] at gone
        cases gone
    · cases refused.symm.trans done
  · exact set

theorem rebind (sound : memory.Sound held opened)
    (found : memory.lookup? scope name = some binding) (object : Option Ref) :
    Meets (fun _ next => next.Sound held opened ∧ memory.Shifts next object)
      (Memory.rebind .counting binding object memory) := by
  have inside := sound.owned.lt_of_lookup? found
  cases done : Memory.rebind .counting binding object memory with
  | error error next => exact sound.owned.isDoubleRelease_rebind inside done
  | ok _ next =>
      have shifts := Shifts.rebind done
      refine ⟨⟨?_, shifts.stable Heap.Indexed.stable sound.indexed, ?_⟩, shifts⟩
      · rcases sound.owned.rebind inside object with ⟨_, refused, _⟩ | ⟨heap, _, rebound, owned⟩
        · rw [done] at refused
          cases refused
        · rw [done] at rebound
          cases rebound
          exact owned
      · exact sound.within.rebind (sound.within.mem_inScopes_of_lookup? found) done

theorem declare (sound : memory.Sound held opened) (member : scope ∈ opened)
    (name type : String) (object : Option Ref) :
    Meets (fun _ next => next.Sound held opened ∧ memory.Shifts next object)
      (Memory.declare .counting scope name type object memory) := by
  cases done : Memory.declare .counting scope name type object memory with
  | error error next => exact sound.owned.isDoubleRelease_declare done
  | ok binding next =>
      have shifts := Shifts.declare done
      refine ⟨⟨?_, shifts.stable Heap.Indexed.stable sound.indexed, ?_⟩, shifts⟩
      · rcases sound.owned.declare scope name type object with
          ⟨_, _, refused, _⟩ | ⟨_, _, declared, owned, _⟩
        · rw [done] at refused
          cases refused
        · rw [done] at declared
          cases declared
          exact owned
      · exact sound.within.declare member (fun _ => sound.known) done

theorem close (sound : memory.Sound held (scope :: opened)) :
    ∃ next, Memory.close .counting scope memory = .ok () next ∧ next.Sound held opened ∧
      memory.Shifts next none := by
  obtain ⟨next, done, owned⟩ := sound.owned.close scope
  have shifts := Shifts.close done
  exact ⟨next, done, ⟨owned, shifts.stable Heap.Indexed.stable sound.indexed,
    sound.within.close done⟩, shifts⟩

theorem sweep (sound : memory.Sound held opened) :
    ∃ heap, Heap.sweep memory.heap = .ok () heap ∧ { memory with heap }.Sound held opened ∧
      memory.Shifts { memory with heap } none := by
  obtain ⟨heap, swept, balanced, settled⟩ := sound.owned.balanced.sweep
  have stable : ∀ {property : Heap → Prop}, Heap.Stable property → property memory.heap →
      property heap := by
    intro property stable holds
    have kept := stable.sweep holds
    rw [swept] at kept
    exact kept
  exact ⟨heap, swept, ⟨sound.owned.onHeap balanced settled,
    stable Heap.Indexed.stable sound.indexed, sound.within.ofSame rfl rfl⟩, stable,
    fun _ member => .inl member⟩

end Sound

/-! ## Closing scopes -/

/-- What lasts while objects are released lasts while bindings let go of theirs. -/
theorem Owned.lasts_releaseAll {property : Heap → Prop} (lasting : Heap.Lasting property)
    (bindings : List BindingId) (owned : memory.Owned held)
    (inside : ∀ binding ∈ bindings, binding < memory.bindings.length)
    (holds : property memory.heap) :
    property (Memory.releaseAll .counting bindings memory).2.heap := by
  induction bindings generalizing memory with
  | nil => exact holds
  | cons binding rest ih =>
      have here := inside binding (.head _)
      obtain ⟨heap, dropped, next⟩ := owned.letGo here
      rw [releaseAll_of_ok dropped]
      refine ih next (fun other member => ?_) ?_
      · rw [length_bindings_setObject]
        exact inside other (.tail _ member)
      · cases bound : (memory.binding binding).object with
        | none =>
            rw [bound] at dropped
            cases dropped
            exact holds
        | some ref =>
            have member : ref ∈ memory.bound ++ held := List.mem_append_left _ (mem_bound here bound)
            have counted := owned.balanced.congr (List.perm_cons_erase member).count_eq
            rw [bound] at dropped
            exact lasting.unref counted holds dropped

theorem Owned.lasts_close {property : Heap → Prop} (lasting : Heap.Lasting property)
    (owned : memory.Owned held) (holds : property memory.heap)
    (done : Memory.close .counting scope memory = .ok () next) : property next.heap := by
  rcases close_eq_ok done with ⟨_, rfl⟩ | ⟨_, rfl⟩
  · exact holds
  · exact owned.lasts_releaseAll lasting (memory.scope scope).declared.reverse
      (fun binding member => owned.declared scope binding (List.mem_reverse.1 member)) holds

/-- Closing the last two scopes leaves to the heap what is held besides. -/
theorem Sound.unwinds {inner root : ScopeId} (sound : memory.Sound held [inner, root]) :
    ∃ middle next, Memory.close .counting inner memory = .ok () middle ∧
      Memory.close .counting root middle = .ok () next ∧
      memory.heap.Unwinds next.heap held := by
  obtain ⟨middle, first, half, _⟩ := sound.close
  obtain ⟨next, second, done, _⟩ := half.close
  have unbound : next.bound = [] := done.perm_bound.eq_nil
  refine ⟨middle, next, first, second, ?_, done.owned.settled, fun lasting holds => ?_⟩
  · have balanced := done.owned.balanced
    rw [unbound] at balanced
    exact balanced
  · exact half.owned.lasts_close lasting (sound.owned.lasts_close lasting holds first) second

end Custody.Memory
