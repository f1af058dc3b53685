import Custody.Proofs.Eval.Cells
import Custody.Proofs.Eval.Relating

/-!
# Assignments one after the other

Several values are taken into variables of their own, and then stored in several targets.
`Gathers` is the first part of this and `Stores` the second.  A value that is stored lands in
a variable, or in a field of the object that the base of its target denotes at that time; and
this is the object which the base denoted before all of the stores unless one of the stores
before it has assigned something that the base reads.
-/

namespace Custody.Eval

open Code Eval.Frame

/-! ## Single assignments -/

/-- Where a value lands, and the cells that are assigned.  The receiver is not assigned, and
neither is a field of no object. -/
inductive Lands (context : Context) (scope : ScopeId) (ready : Frame) (assigned : List Cell)
    (target : Reference) (value : Option Ref) (frame stored : Frame) : List Cell → Prop where
  | receiver (unqualified : target.qualifier = "") (isReceiver : target.member = this) :
      Lands context scope ready assigned target value frame stored []
  | var {binding : BindingId} (unqualified : target.qualifier = "")
      (found : ready.memory.lookup? scope target.member = some binding)
      (holds : stored.content (.var binding) = value) :
      Lands context scope ready assigned target value frame stored [.var binding]
  | field {owner : Option Ref} {type : String} {read : Frame} (qualified : target.qualifier ≠ "")
      (reads : Step.path context scope target.qualifier frame = .ok (owner, type) read)
      (denotes : (∀ cell ∈ read.reads scope target.qualifier, cell ∉ assigned) →
        ready.denoted read scope target.qualifier = owner)
      (holds : ∀ object ∈ owner, stored.content (.field object target.member) = value) :
      Lands context scope ready assigned target value frame stored
        (owner.toList.map (.field · target.member))

section Single

variable {registry : Registry} {summaries : Summaries} {method : Method}
variable {held : List Ref} {opened : List ScopeId} {assigned : List Cell}
variable {ready frame stored : Frame} {scope : ScopeId} {pos : Int} {target : Reference}
variable {owner : Ref} {name : String} {value : Option Ref}

/-- A variable that is assigned is the target. -/
theorem Lands.lookup?_of_var {context : Context} {cells : List Cell} {binding : BindingId}
    (lands : Lands context scope ready assigned target value frame stored cells)
    (member : .var binding ∈ cells) :
    target.qualifier = "" ∧ ready.memory.lookup? scope target.member = some binding := by
  cases lands with
  | receiver => cases member
  | var unqualified found =>
      cases List.mem_singleton.1 member
      exact ⟨unqualified, found⟩
  | field =>
      obtain ⟨_, _, same⟩ := List.mem_map.1 member
      cases same

/-- What fields lead to from an object that is held is firm. -/
theorem firm_walk {heap : Heap} (names : List String) {object : Option Ref}
    (firm : ∀ ref ∈ object, heap.Firm held ref) :
    ∀ ref ∈ heap.walk object names, heap.Firm held ref := by
  induction names generalizing object with
  | nil =>
      cases object
      · exact firm
      · exact firm
  | cons name rest ih =>
      cases object with
      | none => nofun
      | some owner => exact ih fun ref found => (firm owner rfl).owns ⟨name, found⟩

theorem spares_overwrite (sound : frame.memory.Sound held opened)
    (firm : frame.heap.Firm (frame.memory.bound ++ held) owner)
    (done : Step.overwrite (.counting registry summaries method) pos owner name value frame =
      .ok () stored) :
    stored.memory.Sound held opened ∧ Spares [.field owner name] frame stored ∧
      stored.content (.field owner name) = value := by
  rw [Step.overwrite_eq] at done
  obtain ⟨heap, set, rfl⟩ := Step.onHeap_eq_ok done
  rw [heap_mark, heap_taint, heap_taint] at set
  have set : Heap.setField (some owner) name value frame.heap = .ok () heap := set
  have memory : ((((frame.taint pos (some owner)).taint pos value).mark owner name).withHeap
      heap).memory = { frame.memory with heap } := by
    cases value <;> rfl
  have written : frame.written ⊆ ((((frame.taint pos (some owner)).taint pos value).mark owner
      name).withHeap heap).written := by
    cases value <;> exact List.subset_cons_self _ _
  rcases sound.setField (some owner) name value with ⟨error, refused, _⟩ | ⟨_, done, kept⟩
  · cases set.symm.trans refused
  cases set.symm.trans done
  refine ⟨by rw [memory]; exact kept, ?_, ?_⟩
  · refine .ofAssign (Heap.lt_of_not_released (Heap.not_released_of_setField set))
      (Heap.setField_decays set) ?_ ?_ written
    · rw [memory]
    · rw [memory]
  · exact Heap.field?_setField_self set
      ((firm.setField_self kept.owned.balanced set).present kept.owned.balanced)

theorem spares_rebind {binding : BindingId} (sound : frame.memory.Sound held opened)
    (found : frame.memory.lookup? scope name = some binding)
    (done : Step.onMemory (Memory.rebind .counting binding value) frame = .ok () stored) :
    stored.memory.Sound held opened ∧ Spares [.var binding] frame stored ∧
      stored.content (.var binding) = value := by
  obtain ⟨memory, rebound, rfl⟩ := Step.onMemory_eq_ok done
  have kept := sound.rebind found value
  rw [rebound] at kept
  refine ⟨kept.1, .ofDecays kept.2.decays (Memory.lookup?_rebind rebound) ?_
    (List.Subset.refl _), Memory.object_rebind (sound.owned.lt_of_lookup? found) rebound⟩
  intro other apart
  exact Memory.binding_rebind_of_ne rebound fun same => apart (same ▸ .head _)

theorem spares_sweep (sound : frame.memory.Sound held opened)
    (done : Step.onHeap Heap.sweep frame = .ok () stored) :
    stored.memory.Sound held opened ∧ Spares [] frame stored := by
  obtain ⟨heap, swept, rfl⟩ := Step.onHeap_eq_ok done
  obtain ⟨_, also, kept, shifts⟩ := sound.sweep
  cases swept.symm.trans also
  exact ⟨kept, .ofDecays shifts.decays (fun _ _ => rfl) (fun _ => rfl) (List.Subset.refl _)⟩

/-- An assignment stores its value where it lands, and assigns nothing else. -/
theorem lands_of_assign (sound : frame.memory.Sound held opened)
    (spares : Spares assigned ready frame)
    (bound : target.qualifier = "" → (ready.memory.lookup? scope target.member).isSome = true)
    (done : Step.assign (.counting registry summaries method) scope pos target value frame =
      .ok () stored) :
    ∃ cells, Lands (.counting registry summaries method) scope ready assigned target value frame
        stored cells ∧
      Spares cells frame stored ∧ stored.memory.Sound held opened := by
  unfold Step.assign at done
  split at done
  next qualified =>
    obtain ⟨⟨owner, type⟩, read, path, stores⟩ := bind_eq_ok done
    have denotes := denoted_of_path spares sound path
    obtain ⟨reads, binding, names, _, walked⟩ := ReadsOnly.path sound path
    have stores : Step.store (.counting registry summaries method) pos owner type target.member
        value read = .ok () stored := stores
    rw [Step.store_eq] at stores
    obtain ⟨_, _, known, stores⟩ := bind_eq_ok stores
    rw [(Step.ofRegistry_eq_ok known).2] at stores
    cases owner with
    | none =>
        cases stores
        exact ⟨[], .field qualified path denotes nofun, reads.spares.trans (.ofSame rfl
          (List.Subset.refl _)), reads.sound⟩
    | some owner =>
        have firm : ∀ ref ∈ read.content (.var binding),
            read.heap.Firm (read.memory.bound ++ held) ref := fun ref holds =>
          .of_mem (List.mem_append_left _ (Memory.mem_bound_iff.2 ⟨binding, holds⟩))
        obtain ⟨kept, only, holds⟩ :=
          spares_overwrite reads.sound (firm_walk names firm owner walked) stores
        refine ⟨[.field owner target.member], .field qualified path denotes ?_,
          (reads.spares.mono (List.nil_subset _)).trans only, kept⟩
        rintro _ ⟨⟩
        exact holds
  next unqualified =>
    have unqualified : target.qualifier = "" := Classical.not_not.1 unqualified
    split at done
    next isReceiver =>
      cases done
      exact ⟨[], .receiver unqualified isReceiver, .ofSame rfl (List.Subset.refl _), sound⟩
    next =>
      obtain ⟨binding, found⟩ := Option.isSome_iff_exists.1 (bound unqualified)
      have here := (spares.lookup scope target.member).trans found
      obtain ⟨_, _, looked, done⟩ := bind_eq_ok done
      cases looked
      rw [here] at done
      obtain ⟨kept, only, holds⟩ := spares_rebind sound here done
      exact ⟨[.var binding], .var unqualified found holds, only, kept⟩

end Single

/-! ## Several assignments -/

/-- Values are stored in targets one after the other, and the temporaries are freed after each
of them. -/
inductive Stores (context : Context) (scope : ScopeId) (ready : Frame) :
    List Cell → List (Reference × Option Ref) → Frame → Frame → Prop where
  | nil (assigned : List Cell) (frame : Frame) : Stores context scope ready assigned [] frame frame
  | cons {assigned cells : List Cell} {target : Reference} {value : Option Ref}
      {rest : List (Reference × Option Ref)} {frame stored swept last : Frame}
      (assigns : Step.assign context scope target.pos target value frame = .ok () stored)
      (lands : Lands context scope ready assigned target value frame stored cells)
      (only : Spares cells frame stored)
      (sweeps : Step.onHeap context.rules.sweep stored = .ok () swept)
      (onward : Stores context scope ready (cells ++ assigned) rest swept last) :
      Stores context scope ready assigned ((target, value) :: rest) frame last

/-- The values of nodes are computed one after the other.  Each is kept in a variable, under a
name that is not taken. -/
inductive Gathers (context : Context) (scope : ScopeId) (taken : String → Prop) :
    List Node → List (Option Ref) → Frame → Frame → Prop where
  | nil (frame : Frame) : Gathers context scope taken [] [] frame frame
  | absent {nodes : List Node} {values : List (Option Ref)} {frame ready : Frame}
      (onward : Gathers context scope taken nodes values frame ready) :
      Gathers context scope taken (.absent :: nodes) (none :: values) frame ready
  | cons {node : Node} {nodes : List Node} {value : Option Ref} {values : List (Option Ref)}
      {name type : String} {binding : BindingId} {frame computed declared swept ready : Frame}
      (computes : Step.eval context scope node frame = .ok value computed)
      (isFree : ¬taken name)
      (declares : Step.onMemory (Memory.declare context.rules scope name type value) computed =
        .ok binding declared)
      (sweeps : Step.onHeap context.rules.sweep declared = .ok () swept)
      (onward : Gathers context scope taken nodes values swept ready) :
      Gathers context scope taken (node :: nodes) (value :: values) frame ready

/-- A node denotes a value that has been gathered. -/
inductive Carries (scope : ScopeId) (taken : String → Prop) (ready : Frame) :
    Node → Option Ref → Prop where
  | absent : Carries scope taken ready .absent none
  | var {pos : Int} {name : String} {binding : BindingId} {value : Option Ref}
      (isFree : ¬taken name) (found : ready.memory.lookup? scope name = some binding)
      (holds : ready.content (.var binding) = value) :
      Carries scope taken ready (.reference ⟨pos, "", name⟩) value

instance : Memory.Overlooks Memory.Rests where
  withHeap _ _ := ⟨rfl, rfl⟩
  trans first second := ⟨second.scopes.trans first.scopes, second.bindings.trans first.bindings⟩

section Several

variable {context : Context} {scope : ScopeId} {taken more : String → Prop}
variable {nodes carriers : List Node} {values : List (Option Ref)} {frame ready last : Frame}

theorem Gathers.mono (gathers : Gathers context scope more nodes values frame ready)
    (wider : ∀ name, taken name → more name) :
    Gathers context scope taken nodes values frame ready := by
  induction gathers with
  | nil frame => exact .nil frame
  | absent _ ih => exact .absent ih
  | cons computes isFree declares sweeps _ ih =>
      exact .cons computes (fun known => isFree (wider _ known)) declares sweeps ih

/-- Variables whose names are taken are not touched. -/
theorem Gathers.retains (gathers : Gathers context scope taken nodes values frame ready)
    (each : ∀ node ∈ nodes, node.IsExpression) (listed : frame.memory.Listed) {name : String}
    (known : taken name) : Memory.Retains scope name frame.memory ready.memory := by
  induction gathers with
  | nil frame => exact Memory.Rests.retains ⟨rfl, rfl⟩ scope name
  | absent _ ih => exact ih (fun node member => each node (.tail _ member)) listed
  | @cons node _ _ _ other _ _ _ _ _ _ _ computes isFree declares sweeps _ ih =>
      have first : Memory.Rests _ _ :=
        Relating.eval context scope node (each node (.head _)) computes
      obtain ⟨memory, declared, rfl⟩ := Step.onMemory_eq_ok declares
      have third : Memory.Rests _ _ := Relating.onHeap _ sweeps
      have apart : name ≠ other := fun same => isFree (same ▸ known)
      have enlarged := Memory.listed_declare (first.listed listed) declared
      have later := ih (fun node member => each node (.tail _ member)) (third.listed enlarged)
      exact ((first.retains scope name).trans
        (Memory.retains_declare (first.listed listed) declared apart)).trans
          ((third.retains scope name).trans later)

theorem Carries.mono {node : Node} {value : Option Ref}
    (carries : Carries scope more ready node value) (wider : ∀ name, taken name → more name) :
    Carries scope taken ready node value := by
  cases carries with
  | absent => exact .absent
  | var isFree found holds => exact .var (fun known => isFree (wider _ known)) found holds

/-- A variable keeps the value that it was declared with while others are gathered. -/
theorem Gathers.carries (gathers : Gathers context scope more nodes values frame ready)
    (each : ∀ node ∈ nodes, node.IsExpression) {computed declared : Frame} {name type : String}
    {value : Option Ref} {binding : BindingId} (listed : computed.memory.Listed)
    (declares : Step.onMemory (Memory.declare context.rules scope name type value) computed =
      .ok binding declared)
    (sweeps : Step.onHeap context.rules.sweep declared = .ok () frame)
    (isFree : ¬taken name) (known : more name) (pos : Int) :
    Carries scope taken ready (.reference ⟨pos, "", name⟩) value := by
  obtain ⟨memory, made, rfl⟩ := Step.onMemory_eq_ok declares
  have rests : Memory.Rests _ _ := Relating.onHeap _ sweeps
  have enlarged := Memory.listed_declare listed made
  have kept := (rests.retains scope name).trans
    (gathers.retains each (rests.listed enlarged) known)
  have found := Memory.lookup?_declare_self listed made
  refine .var isFree (kept.lookup.trans found) ?_
  rw [content, kept.binding found]
  exact Memory.object_declare listed made

/-- The value is what the node denotes as long as its variable has not been assigned. -/
theorem Carries.eval {node : Node} {value : Option Ref} {assigned : List Cell}
    (carries : Carries scope taken ready node value) (spares : Spares assigned ready frame)
    (apart : ∀ binding, .var binding ∈ assigned → taken (ready.memory.binding binding).name) :
    Step.eval context scope node frame = .ok value frame := by
  cases carries with
  | absent => rfl
  | @var pos name binding _ isFree found holds =>
      have kept : frame.content (.var binding) = value := by
        rw [content, spares.binding fun member => isFree ?_]
        · exact holds
        · rw [← Memory.name_of_lookup? found]
          exact apart binding member
      have first : Step.first context scope name frame =
          .ok (value, (frame.memory.binding binding).type) frame := by
        rw [Step.first_of_bound context ((spares.lookup ..).trans found), ← kept]
        rfl
      have reference : Step.reference context scope ⟨pos, "", name⟩ frame = .ok value frame := by
        rw [Step.reference, if_pos rfl, bind_of_ok first]
        rfl
      rw [Step.eval, Step.locate, reference]

/-- The statement that assigns what a node denotes. -/
def assignment (target : Reference) (value : Node) : Node := .assign target.pos (some target) value

end Several

section Runs

variable {registry : Registry} {summaries : Summaries} {method : Method}
variable {held : List Ref} {opened : List ScopeId} {scope : ScopeId} {taken : String → Prop}
variable {carriers : List Node} {values : List (Option Ref)} {ready last : Frame}

/-- The assignments of values that have been gathered store them one after the other. -/
theorem stores_of_block (carried : List.Forall₂ (Carries scope taken ready) carriers values)
    {references : List Reference}
    (bound : ∀ target ∈ references, target.qualifier = "" →
      taken target.member ∧ (ready.memory.lookup? scope target.member).isSome = true)
    {assigned : List Cell} {frame : Frame} (sound : frame.memory.Sound held opened)
    (spares : Spares assigned ready frame)
    (apart : ∀ binding, .var binding ∈ assigned → taken (ready.memory.binding binding).name)
    (done : Step.block (.counting registry summaries method) scope
      (List.zipWith assignment references carriers) frame = .ok () last) :
    Stores (.counting registry summaries method) scope ready assigned (references.zip values)
      frame last := by
  induction carried generalizing references assigned frame with
  | nil =>
      rw [List.zipWith_nil_right, Step.block] at done
      cases done
      rw [List.zip_nil_right]
      exact .nil assigned _
  | @cons carrier value _ _ carries _ ih =>
      cases references with
      | nil =>
          rw [List.zipWith_nil_left, Step.block] at done
          cases done
          rw [List.zip_nil_left]
          exact .nil assigned _
      | cons target rest =>
          rw [List.zipWith_cons_cons, Step.block] at done
          obtain ⟨_, stored, evaluates, done⟩ := bind_eq_ok done
          obtain ⟨_, swept, sweeps, done⟩ := bind_eq_ok done
          rw [assignment, Step.eval] at evaluates
          have evaluates := Step.locate_eq_ok evaluates
          rw [bind_of_ok (carries.eval spares apart)] at evaluates
          obtain ⟨_, _, assigns, told⟩ := bind_eq_ok evaluates
          cases told
          obtain ⟨cells, lands, only, kept⟩ := lands_of_assign sound spares
            (fun unqualified => (bound target (.head _) unqualified).2) assigns
          have sweeps := Step.sweepAfter_eq_ok sweeps
          obtain ⟨settled, idle⟩ := spares_sweep kept sweeps
          have onward : Spares (cells ++ assigned) ready swept :=
            ((spares.mono (List.subset_append_right _ _)).trans
              (only.mono (List.subset_append_left _ _))).trans (idle.mono (List.nil_subset _))
          refine .cons assigns lands only sweeps
            (ih (fun target member => bound target (.tail _ member)) settled onward ?_ done)
          intro binding member
          rcases List.mem_append.1 member with now | before
          · obtain ⟨unqualified, found⟩ := lands.lookup?_of_var now
            rw [Memory.name_of_lookup? found]
            exact (bound target (.head _) unqualified).1
          · exact apart binding before

end Runs

end Custody.Eval
