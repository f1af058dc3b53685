import Custody.Heap.Family
import Custody.Proofs.Heap.Draining
import Custody.Proofs.Heap.Evolution
import Custody.Proofs.Heap.Ledger

/-!
# Heaps under misuse

Nothing keeps the user of a heap from releasing what others hold, from using released objects, or
from closing cycles.  Whatever is asked of a heap, and whether it is refused or not, objects have
unique identifiers in the order of their allocation, the index lists exactly the objects that are
not released, and a released object stays so with a count of zero.  Counts are lowered only where
there is something to take away, and no release is left pending, even where a cascade is broken
off.

Released objects own nothing as long as no command makes an object give up its last holder,
itself, for another occupant.

Heaps that take their identifiers from one counter number their objects in turn, whichever heap
works with whose objects.
-/

namespace Custody.Heap

variable {heap : Heap} {ref : Ref} {command : Command}

/-! ## Commands in any order -/

/-- The heap after several commands, refused ones included. -/
def after (heap : Heap) (commands : List Command) : Heap :=
  commands.foldl (fun heap command => ending (command.perform heap)) heap

/-- A heap without objects that has been through some commands. -/
def used (lastId : Nat) (commands : List Command) : Heap := (startingAfter lastId).after commands

theorem used_append (lastId : Nat) (past rest : List Command) :
    used lastId (past ++ rest) = (used lastId past).after rest := by
  simp [used, after]

theorem Command.evolves (command : Command) (heap : Heap) :
    heap.Evolves (ending (command.perform heap)) := by
  have start := Evolves.refl heap
  cases command with
  | allocate type isExternal => exact start.change (.allocate type isExternal)
  | ref object => exact start.refer object
  | unref object => exact start.unref object
  | setField owner name value => exact start.setField owner name value
  | transfer old value => exact start.transfer old value
  | sweep => exact start.sweep

theorem evolves_after (heap : Heap) (commands : List Command) :
    heap.Evolves (heap.after commands) := by
  induction commands generalizing heap with
  | nil => exact .refl heap
  | cons first rest ih => exact (first.evolves heap).trans (ih _)

/-- What is kept by every command is kept by all. -/
theorem after_keeps (property : Heap → Prop)
    (step : ∀ heap (command : Command), property heap → property (ending (command.perform heap)))
    (holds : property heap) (commands : List Command) : property (heap.after commands) := by
  induction commands generalizing heap with
  | nil => exact holds
  | cons first rest ih => exact ih (step heap first holds)

/-- A stable property that new objects and new occupants keep is kept by every command. -/
theorem perform_keeps {property : Heap → Prop} (stable : Stable property) (holds : property heap)
    (extended : ∀ type isExternal, property (heap.extended type isExternal))
    (set : ∀ owner name value, command = .setField owner name value →
      property (ending (Heap.setField owner name value heap))) :
    property (ending (command.perform heap)) := by
  have step : property ((Books.mk heap []).step command).heap :=
    Books.step_keeps stable holds extended set
  rw [Books.heap_step] at step
  exact step

theorem indexed_perform (indexed : heap.Indexed) (command : Command) :
    (ending (command.perform heap)).Indexed :=
  perform_keeps Indexed.stable indexed indexed.extended
    fun owner name value _ => indexed.setField owner name value

theorem removed_perform (removed : heap.Removed ref) (command : Command) :
    (ending (command.perform heap)).Removed ref := by
  have step : ((Books.mk heap []).step command).heap.Removed ref := Books.removed_step removed
  rw [Books.heap_step] at step
  exact step

theorem tidy_perform_iff (tidy : heap.Tidy) (command : Command) :
    (ending (command.perform heap)).Tidy ↔ ¬command.Orphans heap := by
  have step : ((Books.mk heap []).step command).heap.Tidy ↔ ¬command.Orphans heap :=
    Books.tidy_step_iff tidy
  rw [Books.heap_step] at step
  exact step

/-! ## Nothing is left pending -/

theorem settled_release (settled : heap.pending = []) {error : Error} {next : Heap}
    (refused : release ref heap = .error error next) : next.pending = [] := by
  rw [(release_eq_error refused).1]
  exact settled

theorem settled_letGo (settled : heap.pending = []) {object : Option Ref} {error : Error}
    {next : Heap} (refused : letGo object heap = .error error next) : next.pending = [] := by
  cases object with
  | none => cases refused
  | some object => exact settled_release settled refused

theorem settled_vacate (settled : heap.pending = []) {owner : Ref} {name : String}
    {occupant : Option Ref} {error : Error} {next : Heap}
    (refused : vacate owner name occupant heap = .error error next) : next.pending = [] := by
  cases occupant with
  | none => cases refused
  | some occupant =>
      have taken : (heap.update owner (.withoutField name)).pending = [] := settled
      exact settled_release taken refused

/-- One object is let go and another is taken, which is never refused; then the heap is drained. -/
theorem settled_exchange {gives takes : Action Unit}
    (gone : ∀ error next, gives heap = .error error next → next.pending = [])
    (taken : ∀ middle error next, takes middle ≠ .error error next) :
    (ending ((do gives; takes; drain : Action Unit) heap)).pending = [] := by
  refine ending_bind_of_cases (fun heap : Heap => heap.pending = []) gone fun _ middle _ => ?_
  exact ending_bind_of_cases (fun heap : Heap => heap.pending = [])
    (fun error next failed => absurd failed (taken middle error next))
    fun _ last _ => pending_drain last

theorem settled_setField (settled : heap.pending = []) (owner : Option Ref) (name : String)
    (value : Option Ref) : (ending (setField owner name value heap)).pending = [] := by
  rcases setField_cases heap owner name value with
    ⟨error, refused, _⟩ | ⟨object, rfl, _, ⟨_, idle⟩ | ⟨_, _, moved⟩⟩
  · rw [refused]
    exact settled
  · rw [idle]
    exact settled
  · rw [moved]
    refine settled_exchange (fun _ _ => settled_vacate settled) fun _ _ _ failed => ?_
    cases value <;> cases failed

theorem settled_transfer (settled : heap.pending = []) (old value : Option Ref) :
    (ending (transfer old value heap)).pending = [] := by
  rcases transfer_cases heap old value with ⟨error, refused, _⟩ | ⟨_, idle⟩ | ⟨_, _, moved⟩
  · rw [refused]
    exact settled
  · rw [idle]
    exact settled
  · rw [moved]
    refine settled_exchange (fun _ _ => settled_letGo settled) fun _ _ _ failed => ?_
    cases value <;> cases failed

theorem settled_perform (settled : heap.pending = []) (command : Command) :
    (ending (command.perform heap)).pending = [] := by
  cases command with
  | allocate type isExternal => exact settled
  | ref object =>
      cases object with
      | none => exact settled
      | some object =>
          simp only [Command.perform, Heap.ref]
          split <;> exact settled
  | unref object =>
      cases object with
      | none => exact settled
      | some object =>
          exact ending_bind_of_cases (fun heap : Heap => heap.pending = [])
            (fun _ _ => settled_release settled) fun _ middle _ => pending_drain middle
  | setField owner name value => exact settled_setField settled owner name value
  | transfer old value => exact settled_transfer settled old value
  | sweep => exact pending_drain _

/-! ## Identifiers -/

/-- Objects in the order of their allocation have ascending identifiers.  As words of 64 bits these
differ up to the number of words there are, and they ascend until the words are used up. -/
structure WellNumbered (start : Nat) (objects : List Object) : Prop where
  ascending : objects.Pairwise fun earlier later => earlier.id < later.id
  distinct : objects.length ≤ 2 ^ 64 →
    objects.Pairwise fun earlier later => UInt64.ofNat earlier.id ≠ UInt64.ofNat later.id
  words : start + objects.length < 2 ^ 64 →
    objects.Pairwise fun earlier later => UInt64.ofNat earlier.id < UInt64.ofNat later.id

/-- Identifiers that are handed out one after the other are in order. -/
theorem wellNumbered_of_ids {start : Nat} {objects : List Object}
    (ids : objects.map (·.id) = List.range' (start + 1) objects.length) :
    WellNumbered start objects := by
  have id : ∀ place (inside : place < objects.length), objects[place].id = start + 1 + place := by
    intro place inside
    have same := congrArg (·[place]?) ids
    simpa [inside] using same
  constructor
  · refine List.pairwise_iff_getElem.2 fun left right one two less => ?_
    rw [id left one, id right two]
    omega
  · intro enough
    refine List.pairwise_iff_getElem.2 fun left right one two less same => ?_
    have equal := congrArg UInt64.toNat same
    rw [id left one, id right two, UInt64.toNat_ofNat', UInt64.toNat_ofNat'] at equal
    omega
  · intro enough
    refine List.pairwise_iff_getElem.2 fun left right one two less => ?_
    rw [UInt64.lt_iff_toNat_lt, id left one, id right two, UInt64.toNat_ofNat',
      UInt64.toNat_ofNat']
    omega

namespace Family

variable {family : Family} {heaps : Nat}

/-- The family after a command on one of its heaps. -/
def perform (family : Family) (index : Nat) (command : Command) : Family :=
  (family.run index (Memory.onHeap .heap command.perform)).2

/-- The family after several commands on its heaps. -/
def after (family : Family) (steps : List (Fin heaps × Command)) : Family :=
  steps.foldl (fun family step => family.perform step.1 step.2) family

theorem perform_eq (family : Family) (index : Nat) (command : Command) :
    family.perform index command = family.restore index
      { family.memory index with heap := ending (command.perform (family.memory index).heap) } := by
  unfold perform run Memory.onHeap
  cases command.perform (family.memory index).heap <;> rfl

/-- All heaps of a family go on counting where the others have stopped. -/
structure Counted (heaps : Nat) (family : Family) : Prop where
  shared : family.shared = true
  length : family.members.length = heaps
  counter : ∀ member ∈ family.members, member.2 = family.objects.length
  ids : family.objects.map (·.id) = List.range' 1 family.objects.length

namespace Counted

theorem new (heaps : Nat) : (Family.new heaps true).Counted heaps where
  shared := rfl
  length := List.length_replicate
  counter member listed := by
    rw [List.eq_of_mem_replicate listed]
    rfl
  ids := rfl

theorem numbered (counted : family.Counted heaps) (index : Fin heaps) :
    (family.memory index).heap.Numbered 0 where
  ids := by simpa [memory] using counted.ids
  lastId := by
    have inside : index < family.members.length := by
      rw [counted.length]
      exact index.isLt
    have listed : family.members.getD index (∅, 0) ∈ family.members := by
      rw [List.getD_eq_getElem?_getD, List.getElem?_eq_getElem inside]
      exact List.getElem_mem inside
    simpa [memory] using counted.counter _ listed

theorem perform (counted : family.Counted heaps) (index : Fin heaps) (command : Command) :
    (family.perform index command).Counted heaps := by
  have next : (ending (command.perform (family.memory index).heap)).Numbered 0 :=
    (command.evolves _).keeps (counted.numbered index) Numbered.changes
  rw [perform_eq]
  constructor
  · exact counted.shared
  · simp [restore, counted.length]
  · intro member listed
    obtain ⟨before, _, rfl⟩ := List.mem_map.1 listed
    simpa [restore, counted.shared] using next.lastId
  · simpa [restore] using next.ids

theorem after (counted : family.Counted heaps) (steps : List (Fin heaps × Command)) :
    (family.after steps).Counted heaps := by
  induction steps generalizing family with
  | nil => exact counted
  | cons first rest ih => exact ih (counted.perform first.1 first.2)

end Counted

end Family

/-! ## What misuse cannot break -/

/-- A heap is in order: its identifiers are, its index is, released objects are not counted, and
nothing is pending. -/
structure WellFormed (start : Nat) (heap : Heap) : Prop where
  wellNumbered : WellNumbered start heap.objects
  indexed : heap.Indexed
  retired : heap.Retired
  settled : heap.pending = []

/-- At every moment the heap is in order and has come there by elementary changes, and an object
that has been removed is not live, nor counted, at any later moment. -/
structure Sturdy (lastId : Nat) (commands : List Command) : Prop where
  wellFormed : ∀ past, past <+: commands → (used lastId past).WellFormed lastId
  evolves : ∀ past later, past <+: later → later <+: commands →
    (used lastId past).Evolves (used lastId later)
  final : ∀ past later ref, past <+: later → later <+: commands →
    (used lastId past).Removed ref →
      ¬(used lastId later).Live ref ∧ (used lastId later).Removed ref ∧
        ((used lastId later).object ref).count = 0

/-- Released objects own nothing at any moment either. -/
structure Intact (lastId : Nat) (commands : List Command) : Prop
    extends Sturdy lastId commands where
  tidy : ∀ past, past <+: commands → (used lastId past).Tidy

theorem wellFormed_used (lastId : Nat) (commands : List Command) :
    (used lastId commands).WellFormed lastId where
  wellNumbered := by
    have numbered := (evolves_after (startingAfter lastId) commands).keeps
      (Numbered.startingAfter lastId) Numbered.changes
    exact wellNumbered_of_ids numbered.ids
  indexed := after_keeps Indexed (fun _ command indexed => indexed_perform indexed command)
    (.startingAfter lastId) commands
  retired := (evolves_after (startingAfter lastId) commands).keeps
    (Retired.startingAfter lastId) Retired.changes
  settled := after_keeps (·.pending = [])
    (fun _ command settled => settled_perform settled command) rfl commands

theorem sturdy (lastId : Nat) (commands : List Command) : Sturdy lastId commands where
  wellFormed past _ := wellFormed_used lastId past
  evolves past later within _ := by
    obtain ⟨rest, rfl⟩ := within
    rw [used_append]
    exact evolves_after _ rest
  final past later ref within _ removed := by
    obtain ⟨rest, rfl⟩ := within
    have last : (used lastId (past ++ rest)).Removed ref := by
      rw [used_append]
      exact after_keeps (Removed · ref) (fun _ command gone => removed_perform gone command)
        removed rest
    have order := wellFormed_used lastId (past ++ rest)
    refine ⟨fun live => ?_, last, order.retired ref last.2⟩
    have present := order.indexed.live_iff.1 live
    rw [last.2] at present
    cases present

/-- Whatever commands a heap goes through, it is in order at every moment, and removed objects stay
out of the game; they own nothing at any moment exactly if no command orphans an object.  Heaps
with one counter keep their identifiers in order together. -/
theorem intact_iff_not_orphans (lastId : Nat) (commands : List Command) :
    Sturdy lastId commands ∧
      (Intact lastId commands ↔
        ∀ past command, past ++ [command] <+: commands →
          ¬command.Orphans (used lastId past)) ∧
      ∀ heaps (steps : List (Fin heaps × Command)),
        WellNumbered 0 ((Family.new heaps true).after steps).objects := by
  refine ⟨sturdy lastId commands, ⟨fun intact past command within => ?_, fun fine => ?_⟩,
    fun heaps steps => wellNumbered_of_ids ((Family.Counted.new heaps).after steps).ids⟩
  · have before := intact.tidy past ((List.prefix_append past [command]).trans within)
    have next := intact.tidy (past ++ [command]) within
    rw [used_append] at next
    exact (tidy_perform_iff before command).1 next
  · refine ⟨sturdy lastId commands, fun past => ?_⟩
    induction past using List.reverseRecOn with
    | nil => exact fun _ => .startingAfter lastId
    | append_singleton past command ih =>
        intro within
        rw [used_append]
        exact (tidy_perform_iff (ih ((List.prefix_append past [command]).trans within)) command).2
          (fine past command within)

/-- An object that only holds itself is given another occupant, which is released once too often
afterwards. -/
def dangling : List Command :=
  [.allocate "A" false, .setField (some 0) "x" (some 0), .allocate "B" false,
    .setField (some 0) "x" (some 1), .unref (some 1), .unref (some 1)]

/-- The first object has been released and still has a field, which holds a released object. -/
theorem not_intact_dangling : ¬Intact 0 dangling := by
  intro intact
  have gone : ((used 0 dangling).object 0).released = true := by decide +kernel
  have empty := intact.tidy dangling (List.prefix_refl dangling) 0 gone
  have owns : (used 0 dangling).field? 0 "x" = some 1 := by decide +kernel
  rw [field?, empty] at owns
  cases owns

end Custody.Heap
