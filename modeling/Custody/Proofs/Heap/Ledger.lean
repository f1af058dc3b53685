import Custody.Proofs.Heap.Balance
import Custody.Proofs.Heap.Index
import Mathlib.Algebra.Order.BigOperators.Group.List
import Mathlib.Algebra.Order.Group.Nat
import Mathlib.Data.List.Basic
import Mathlib.Data.List.Induction

/-!
# Keeping books on a heap

Whoever works with a heap keeps a ledger of the references held directly: taking
one adds an entry, dropping one strikes an entry off, and a transfer does both.
A run is honest if it only drops what the ledger lists; all other operands may be
anything, released objects and none included.

Along an honest run the heap is balanced with its ledger, no release is refused,
and a command that is refused changes nothing.  The counts are exact over the
live objects as long as no command makes an object give up its last holder,
itself, for another occupant: that object is removed and yet owns the occupant.
-/

namespace Custody.Heap

/-- An object that has been removed from the live ones. -/
def Removed (heap : Heap) (ref : Ref) : Prop :=
  ref < heap.objects.length ∧ (heap.object ref).released = true

/-- An object that the index lists. -/
def Live (heap : Heap) (ref : Ref) : Prop :=
  ref < heap.objects.length ∧ heap.isLive (heap.object ref).id = true

/-- The number of fields of live objects that hold an object. -/
def liveSlots (heap : Heap) (ref : Ref) : Nat :=
  (heap.objects.flatMap fun object =>
    if heap.isLive object.id then object.fields.values else []).count ref

section Live

variable {heap : Heap} {held : List Ref} {ref : Ref}

theorem Indexed.live_iff (indexed : heap.Indexed) :
    heap.Live ref ↔ (heap.object ref).released = false := by
  constructor
  · rintro ⟨inside, listed⟩
    exact (indexed.isLive_iff inside).1 listed
  · intro present
    have inside := lt_of_not_released present
    exact ⟨inside, (indexed.isLive_iff inside).2 present⟩

/-- Where the fields of live objects are all that hold live objects, removed objects own
nothing. -/
theorem tidy_of_liveSlots (indexed : heap.Indexed) (balanced : heap.Balanced held)
    (same : ∀ ref, heap.Live ref → heap.liveSlots ref = heap.fieldValues.count ref) :
    heap.Tidy := by
  intro owner gone
  refine Table.ext fun name => ?_
  rw [Table.find?_empty]
  cases found : (heap.object owner).fields.find? name with
  | none => rfl
  | some value =>
      have inside : owner < heap.objects.length := lt_of_field? found
      have live : heap.Live value := indexed.live_iff.2 (balanced.not_released_of_field found)
      have missing : heap.isLive (heap.object owner).id = false := by
        rw [← Bool.not_eq_true, indexed.isLive_iff inside, gone]
        exact Bool.noConfusion
      have fewer : heap.liveSlots value < heap.fieldValues.count value := by
        unfold liveSlots fieldValues
        rw [List.count_flatMap, List.count_flatMap]
        refine List.sum_lt_sum _ _ (fun object _ => ?_) ⟨heap.objects[owner], ?_, ?_⟩
        · dsimp only [Function.comp]
          split
          · exact Nat.le_refl _
          · exact Nat.zero_le _
        · exact List.getElem_mem inside
        · rw [object_of_lt inside] at missing found
          simp only [Function.comp, missing, Bool.false_eq_true, ↓reduceIte, List.count_nil]
          exact List.count_pos_iff.2
            (List.mem_map_of_mem (f := (·.2)) (Table.find?_eq_some_iff.1 found))
      exact absurd (same value live) (Nat.ne_of_lt fewer)

end Live

/-- What can be asked of a heap. -/
inductive Command where
  | allocate (type : String) (isExternal : Bool)
  | ref (object : Option Ref)
  | unref (object : Option Ref)
  | setField (owner : Option Ref) (name : String) (value : Option Ref)
  | transfer (old value : Option Ref)
  | sweep
  deriving DecidableEq

namespace Command

/-- Carry a command out. -/
def perform : Command → Action Unit
  | allocate type isExternal => fun heap =>
      match Heap.allocate type isExternal heap with
      | .ok _ heap => .ok () heap
      | .error error heap => .error error heap
  | ref object => Heap.ref object
  | unref object => Heap.unref object
  | setField owner name value => Heap.setField owner name value
  | transfer old value => Heap.transfer old value
  | sweep => Heap.sweep

/-- The ledger after a command that has been carried out. -/
def book (ledger : List Ref) : Command → List Ref
  | ref (some object) => object :: ledger
  | unref (some object) => ledger.erase object
  | transfer old value =>
      if old = value then ledger
      else value.toList ++ (old.elim ledger ledger.erase)
  | _ => ledger

/-- A command drops only what the ledger lists. -/
def Honest (ledger : List Ref) : Command → Prop
  | unref (some object) => object ∈ ledger
  | transfer (some old) _ => old ∈ ledger
  | _ => True

instance (ledger : List Ref) : (command : Command) → Decidable (command.Honest ledger)
  | unref (some object) => inferInstanceAs (Decidable (object ∈ ledger))
  | transfer (some old) _ => inferInstanceAs (Decidable (old ∈ ledger))
  | unref none | transfer none _ | allocate _ _ | ref _ | setField _ _ _ | sweep => .isTrue trivial

/-- A command that makes an object give up itself, its last holder, for
another occupant. -/
def Orphans (heap : Heap) : Command → Prop
  | setField owner name value => heap.Orphans owner name value
  | _ => False

instance (heap : Heap) : (command : Command) → Decidable (command.Orphans heap)
  | setField owner name value => heap.decidableOrphans owner name value
  | allocate _ _ | ref _ | unref _ | transfer _ _ | sweep => .isFalse id

end Command

/-- A heap with the ledger of the references held directly. -/
structure Books where
  heap : Heap
  ledger : List Ref

namespace Books

/-- The books on a heap without objects. -/
def opening (lastId : Nat) : Books := ⟨.startingAfter lastId, []⟩

/-- The books after a command. -/
def step (books : Books) (command : Command) : Books :=
  match command.perform books.heap with
  | .ok () heap => ⟨heap, command.book books.ledger⟩
  | .error _ heap => ⟨heap, books.ledger⟩

/-- The books after several commands. -/
def after (books : Books) (commands : List Command) : Books := commands.foldl step books

/-- Every command is honest at its moment. -/
def Honest : Books → List Command → Prop
  | _, [] => True
  | books, command :: rest => command.Honest books.ledger ∧ Honest (books.step command) rest

instance decidableHonest : (books : Books) → (commands : List Command) →
    Decidable (books.Honest commands)
  | _, [] => .isTrue trivial
  | books, command :: rest =>
      have := decidableHonest (books.step command) rest
      inferInstanceAs (Decidable (command.Honest books.ledger ∧ (books.step command).Honest rest))

/-- The counts of the live objects are exact, and removed objects are out of
the game. -/
structure Exact (books : Books) : Prop where
  count : ∀ ref, books.heap.Live ref →
    (books.heap.object ref).count = books.ledger.count ref + books.heap.liveSlots ref
  removed : ∀ ref, books.heap.Removed ref →
    (books.heap.object ref).count = 0 ∧ books.ledger.count ref = 0 ∧
      (books.heap.object ref).fields = ∅
  owned : ∀ owner name value, books.heap.Live owner →
    books.heap.field? owner name = some value → ¬books.heap.Removed value
  settled : books.heap.pending = []

/-- Counts are exact at all times, an object is live unless it has been removed
at some time, no release is refused, and what is refused changes nothing. -/
structure Faithful (books : Books) (commands : List Command) : Prop where
  exact : ∀ past, past <+: commands → (books.after past).Exact
  live : ∀ past, past <+: commands → ∀ ref, ref < (books.after past).heap.objects.length →
    ((books.after past).heap.Live ref ↔
      ∀ earlier, earlier <+: past → ¬(books.after earlier).heap.Removed ref)
  refused : ∀ past command error heap, past ++ [command] <+: commands →
    command.perform (books.after past).heap = .error error heap →
    error.isDoubleRelease = false ∧ heap = (books.after past).heap

/-! ## What an honest command keeps -/

/-- The heap is balanced with the ledger and its index is in order. -/
structure Sound (books : Books) : Prop where
  balanced : books.heap.Balanced books.ledger
  indexed : books.heap.Indexed
  settled : books.heap.pending = []

variable {books : Books} {command : Command}

theorem Sound.opening (lastId : Nat) : (opening lastId).Sound where
  balanced := .startingAfter lastId
  indexed := .startingAfter lastId
  settled := rfl

/-- An honest command is carried out and keeps the books sound, or it is refused
for the use of a released object and changes nothing. -/
theorem Sound.perform (sound : books.Sound) (honest : command.Honest books.ledger) :
    (∃ heap, command.perform books.heap = .ok () heap ∧
        Sound ⟨heap, command.book books.ledger⟩) ∨
      ∃ error, command.perform books.heap = .error error books.heap ∧
        error.isDoubleRelease = false := by
  obtain ⟨balanced, indexed, settled⟩ := sound
  cases command with
  | allocate type isExternal =>
      exact .inl ⟨_, rfl, balanced.extended type isExternal, indexed.extended type isExternal,
        settled⟩
  | ref object =>
      cases object with
      | none => exact .inl ⟨_, rfl, balanced, indexed, settled⟩
      | some object =>
          rcases balanced.ref_eq object with refused | ⟨done, raised⟩
          · exact .inr ⟨_, refused, rfl⟩
          · exact .inl ⟨_, done, raised, Indexed.stable.raise object indexed, settled⟩
  | unref object =>
      cases object with
      | none => exact .inl ⟨_, rfl, balanced, indexed, settled⟩
      | some object =>
          have listed := balanced.congr (List.perm_cons_erase honest).count_eq
          obtain ⟨heap, done, lowered, empty⟩ := listed.unref
          have kept := Indexed.stable.unref (some object) indexed
          rw [done] at kept
          exact .inl ⟨heap, done, lowered, kept, empty⟩
  | setField owner name value =>
      rcases balanced.setField settled owner name value with
        ⟨error, refused, use, _⟩ | ⟨heap, done, next, empty⟩
      · exact .inr ⟨error, refused, use⟩
      · have kept := indexed.setField owner name value
        rw [done] at kept
        exact .inl ⟨heap, done, next, kept, empty⟩
  | transfer old value =>
      have struck : books.ledger.Perm (old.toList ++ old.elim books.ledger books.ledger.erase) := by
        cases old with
        | none => exact .refl _
        | some old => exact List.perm_cons_erase honest
      have listed := balanced.congr struck.count_eq
      rcases listed.transfer settled value with ⟨error, refused, use, _⟩ | ⟨heap, done, next, empty⟩
      · exact .inr ⟨error, refused, use⟩
      · have kept := Indexed.stable.transfer old value indexed
        rw [done] at kept
        refine .inl ⟨heap, done, ?_, kept, empty⟩
        change heap.Balanced (if old = value then books.ledger
          else value.toList ++ old.elim books.ledger books.ledger.erase)
        split
        next same =>
          rw [← same] at next
          exact next.congr struck.symm.count_eq
        next => exact next
  | sweep =>
      obtain ⟨heap, done, next, empty⟩ := balanced.sweep
      have kept := Indexed.stable.sweep indexed
      rw [done] at kept
      exact .inl ⟨heap, done, next, kept, empty⟩

theorem Sound.step (sound : books.Sound) (honest : command.Honest books.ledger) :
    (books.step command).Sound := by
  unfold Books.step
  rcases sound.perform honest with ⟨heap, done, next⟩ | ⟨error, refused, _⟩
  · rw [done]
    exact next
  · rw [refused]
    exact sound

theorem after_append (books : Books) (past : List Command) (command : Command) :
    books.after (past ++ [command]) = (books.after past).step command := by
  simp [after]

theorem Honest.append {past rest : List Command} (honest : books.Honest (past ++ rest)) :
    books.Honest past ∧ (books.after past).Honest rest := by
  induction past generalizing books with
  | nil => exact ⟨trivial, honest⟩
  | cons first past ih =>
      obtain ⟨here, later⟩ := honest
      obtain ⟨one, two⟩ := ih later
      exact ⟨⟨here, one⟩, two⟩

theorem Sound.after (sound : books.Sound) {commands : List Command}
    (honest : books.Honest commands) : (books.after commands).Sound := by
  induction commands generalizing books with
  | nil => exact sound
  | cons first rest ih => exact ih (sound.step honest.1) honest.2

theorem heap_step (books : Books) (command : Command) :
    (books.step command).heap = ending (command.perform books.heap) := by
  unfold step
  split
  next heap done => rw [done]; rfl
  next error heap refused => rw [refused]; rfl

/-- A stable property that new objects and new occupants keep is kept by every
command. -/
theorem step_keeps {property : Heap → Prop} (stable : Stable property)
    (holds : property books.heap)
    (extended : ∀ type isExternal, property (books.heap.extended type isExternal))
    (set : ∀ owner name value, command = .setField owner name value →
      property (ending (Heap.setField owner name value books.heap))) :
    property (books.step command).heap := by
  rw [heap_step]
  cases command with
  | allocate type isExternal => exact extended type isExternal
  | ref object => exact stable.refer object holds
  | unref object => exact stable.unref object holds
  | setField owner name value => exact set owner name value rfl
  | transfer old value => exact stable.transfer old value holds
  | sweep => exact stable.sweep holds

/-! ## Removal is for good -/

theorem removed_update {heap : Heap} {ref other : Ref} {change : Object → Object}
    (kept : ∀ object : Object, object.released = true → (change object).released = true)
    (removed : heap.Removed ref) : (heap.update other change).Removed ref := by
  refine ⟨by simpa using removed.1, ?_⟩
  rcases object_update_cases heap other change ref with same | changed
  · rw [same]
    exact removed.2
  · rw [changed]
    exact kept _ removed.2

theorem removed_stable (ref : Ref) : Stable (Removed · ref) where
  raise _ removed := removed_update (fun _ gone => gone) removed
  lower _ removed := removed_update (fun _ gone => gone) removed
  remove other _ removed := by
    have buried : (Heap.update _ other .bury).Removed ref :=
      removed_update (fun _ _ => rfl) removed
    exact buried
  pending _ removed := removed

/-- A command leaves removed objects removed. -/
theorem removed_step {ref : Ref} (removed : books.heap.Removed ref) :
    (books.step command).heap.Removed ref := by
  refine step_keeps (removed_stable ref) removed ?_ ?_
  · intro type isExternal
    obtain ⟨inside, gone⟩ := removed
    refine ⟨by rw [length_objects_extended]; exact Nat.lt_succ_of_lt inside, ?_⟩
    rw [object_extended, if_neg (Nat.ne_of_lt inside)]
    exact gone
  · intro owner name value _
    refine (removed_stable ref).setField removed ?_ ?_
    · intro object _ _
      exact removed_update (fun _ gone => gone) removed
    · intro object occupant middle _ _ _ _ _ _ kept
      exact removed_update (fun _ gone => gone) kept

theorem removed_after {ref : Ref} {commands : List Command} (removed : books.heap.Removed ref) :
    (books.after commands).heap.Removed ref := by
  induction commands generalizing books with
  | nil => exact removed
  | cons first rest ih => exact ih (removed_step removed)

/-! ## Exactness -/

/-- In a tidy heap the fields of live objects are all fields there are. -/
theorem liveSlots_eq {heap : Heap} (indexed : heap.Indexed) (tidy : heap.Tidy) (ref : Ref) :
    heap.liveSlots ref = heap.fieldValues.count ref := by
  unfold liveSlots fieldValues
  congr 1
  refine List.flatMap_congr fun object member => ?_
  obtain ⟨place, inside, rfl⟩ := List.mem_iff_getElem.1 member
  have live := indexed.isLive_iff inside
  have empty := tidy place
  rw [object_of_lt inside] at live empty
  split
  next => rfl
  next missing =>
    cases flag : heap.objects[place].released with
    | false => exact absurd (live.2 flag) missing
    | true =>
        rw [empty flag]
        rfl

/-- Exactness needs no more than sound books over a tidy heap. -/
theorem Sound.exact (sound : books.Sound) (tidy : books.heap.Tidy) : books.Exact := by
  obtain ⟨balanced, indexed, settled⟩ := sound
  have counted : ∀ ref, (books.heap.object ref).count =
      books.ledger.count ref + books.heap.fieldValues.count ref := by
    intro ref
    have count := balanced.count ref
    rw [references, settled, List.count_nil] at count
    omega
  constructor
  · intro ref _
    rw [liveSlots_eq indexed tidy, counted]
  · intro ref removed
    have none := balanced.retired ref removed.2
    have count := counted ref
    refine ⟨none, by omega, tidy ref removed.2⟩
  · intro owner name value _ found removed
    have present := balanced.not_released_of_field found
    rw [removed.2] at present
    cases present
  · exact settled

theorem Exact.tidy (exact : books.Exact) : books.heap.Tidy := by
  intro ref gone
  rcases Nat.lt_or_ge ref books.heap.objects.length with inside | outside
  · exact (exact.removed ref ⟨inside, gone⟩).2.2
  · rw [object_of_le outside]
    rfl

/-- A command keeps the heap tidy exactly if it orphans nothing. -/
theorem tidy_step_iff (tidy : books.heap.Tidy) :
    (books.step command).heap.Tidy ↔ ¬command.Orphans books.heap := by
  constructor
  · intro kept orphans
    cases command with
    | setField owner name value =>
        rw [heap_step] at kept
        exact Tidy.not_setField orphans kept
    | _ => exact orphans
  · intro fine
    refine step_keeps Tidy.stable tidy tidy.extended ?_
    intro owner name value isSet
    subst isSet
    exact tidy.setField fine

/-- An object is live unless it has been removed at some time. -/
theorem live_iff {past : List Command} (indexed : (books.after past).heap.Indexed) {ref : Ref}
    (inside : ref < (books.after past).heap.objects.length) :
    (books.after past).heap.Live ref ↔
      ∀ earlier, earlier <+: past → ¬(books.after earlier).heap.Removed ref := by
  have present := indexed.isLive_iff inside
  constructor
  · rintro ⟨_, listed⟩ earlier ⟨rest, rfl⟩ removed
    have last : (books.after (earlier ++ rest)).heap.Removed ref := by
      rw [after, List.foldl_append]
      exact removed_after removed
    have gone := last.2
    rw [present.1 listed] at gone
    cases gone
  · intro never
    refine ⟨inside, present.2 ?_⟩
    cases flag : ((books.after past).heap.object ref).released with
    | false => rfl
    | true => exact absurd ⟨inside, flag⟩ (never past (List.prefix_refl past))

/-- The counts of an honest run are exact at all times exactly if no command
orphans an object. -/
theorem faithful_iff_not_orphans (lastId : Nat) (commands : List Command)
    (honest : (opening lastId).Honest commands) :
    (opening lastId).Faithful commands ↔
      ∀ past command, past ++ [command] <+: commands →
        ¬command.Orphans ((opening lastId).after past).heap := by
  have sound : ∀ past, past <+: commands → ((opening lastId).after past).Sound := by
    rintro past ⟨rest, rfl⟩
    exact (Sound.opening lastId).after honest.append.1
  constructor
  · intro faithful past command within
    have before := (faithful.exact past ((List.prefix_append past [command]).trans within)).tidy
    have next := (faithful.exact (past ++ [command]) within).tidy
    rw [after_append] at next
    exact (tidy_step_iff before).1 next
  · intro fine
    have tidy : ∀ past, past <+: commands → ((opening lastId).after past).heap.Tidy := by
      intro past
      induction past using List.reverseRecOn with
      | nil => exact fun _ => .startingAfter lastId
      | append_singleton past command ih =>
          intro within
          rw [after_append]
          exact (tidy_step_iff (ih ((List.prefix_append past [command]).trans within))).2
            (fine past command within)
    constructor
    · exact fun past within => (sound past within).exact (tidy past within)
    · exact fun past within ref inside => live_iff (sound past within).indexed inside
    · rintro past command error heap ⟨rest, rfl⟩ refused
      have within : past <+: past ++ [command] ++ rest := ⟨[command] ++ rest, by simp⟩
      rw [List.append_assoc] at honest
      rcases (sound past within).perform honest.append.2.1 with
        ⟨next, done, _⟩ | ⟨reason, kept, use⟩
      · rw [refused] at done
        cases done
      · rw [refused] at kept
        cases kept
        exact ⟨use, rfl⟩

/-- No command orphans an object if the one at each place does not. -/
theorem not_orphans_of_index {books : Books} {commands : List Command}
    (each : ∀ index, (inside : index < commands.length) →
      ¬commands[index].Orphans (books.after (commands.take index)).heap) :
    ∀ past command, past ++ [command] <+: commands → ¬command.Orphans (books.after past).heap := by
  rintro past command ⟨rest, rfl⟩
  simpa using each past.length (by simp)

/-- A chain of owners that a transfer frees up to the object it takes hold of. -/
def unchained : List Command :=
  [.allocate "A" false, .ref (some 0), .allocate "B" false, .setField (some 0) "next" (some 1),
    .allocate "C" true, .setField (some 1) "next" (some 2), .setField (some 2) "back" (some 2),
    .transfer (some 0) (some 2), .ref (some 1), .sweep, .unref (some 2)]

theorem faithful_unchained : (opening 0).Honest unchained ∧ (opening 0).Faithful unchained := by
  have honest : (opening 0).Honest unchained := by decide +kernel
  refine ⟨honest, (faithful_iff_not_orphans 0 unchained honest).2 (not_orphans_of_index ?_)⟩
  decide +kernel

/-- An object that holds itself and is given another occupant. -/
def selfless : List Command :=
  [.allocate "A" false, .setField (some 0) "x" (some 0), .allocate "B" false,
    .setField (some 0) "x" (some 1)]

/-- The occupant is counted once too often, though the run is honest. -/
theorem not_faithful_selfless : (opening 0).Honest selfless ∧ ¬(opening 0).Faithful selfless := by
  refine ⟨by decide +kernel, fun faithful => ?_⟩
  have exact := faithful.exact selfless (List.prefix_refl selfless)
  have live : ((opening 0).after selfless).heap.Live 1 := ⟨by decide +kernel, by decide +kernel⟩
  have counted : (((opening 0).after selfless).heap.object 1).count = 1 := by decide +kernel
  have held : ((opening 0).after selfless).ledger.count 1 = 0 := by decide +kernel
  have owned : ((opening 0).after selfless).heap.liveSlots 1 = 0 := by decide +kernel
  have count := exact.count 1 live
  omega

end Books

end Custody.Heap
