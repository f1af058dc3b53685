import Custody.Proofs.Heap.Ledger
import Custody.Proofs.Heap.Survival

/-!
# What a sweep collects

Along an honest run nothing that the ledger leads to is ever freed, and a sweep leaves only
objects that are held.  What is left can be traced back to an object that the ledger lists or
to a cycle of fields, with one exception: an object that only held itself and was given
another occupant is gone, and its occupant is left without a way to it.  As long as no command
orphans an object there are no such strays, and a sweep collects everything that is not
reached, cycles apart.
-/

namespace Custody.Heap

open Relation

variable {heap : Heap} {held : List Ref} {ref : Ref}

/-- Where what is held directly is there, so is all it leads to. -/
theorem Balanced.not_released_of_leads {root : Ref} (balanced : heap.Balanced held)
    (member : root ∈ held) (leads : heap.Leads root ref) :
    (heap.object ref).released = false := by
  rcases leads.cases_tail with same | ⟨_, _, _, found⟩
  · rw [same]
    exact balanced.not_released_of_mem member
  · exact balanced.not_released_of_field found

namespace Books

/-- An object that the ledger lists leads to it. -/
def Reaches (books : Books) (ref : Ref) : Prop :=
  ∃ root ∈ books.ledger, books.heap.Leads root ref

/-- An object that has been removed leads to it. -/
def Strays (books : Books) (ref : Ref) : Prop :=
  ∃ owner, books.heap.Removed owner ∧ books.heap.Leads owner ref

/-- No object leads back to itself. -/
def Acyclic (books : Books) : Prop := ∀ point, ¬TransGen books.heap.Owns point point

/-- What the ledger leads to is live at all times, and what is live after a sweep is
held. -/
structure Safe (books : Books) (commands : List Command) : Prop where
  kept : ∀ past, past <+: commands → ∀ ref, (books.after past).Reaches ref →
    (books.after past).heap.Live ref
  held : ∀ past, past ++ [Command.sweep] <+: commands → ∀ ref,
    (books.after (past ++ [Command.sweep])).heap.Live ref →
    1 ≤ ((books.after (past ++ [Command.sweep])).heap.object ref).count

/-- A sweep leaves what the ledger or a cycle leads to; without cycles, exactly what the
ledger leads to. -/
structure Precise (books : Books) (commands : List Command) : Prop extends
    Safe books commands where
  traced : ∀ past, past ++ [Command.sweep] <+: commands → ∀ ref,
    (books.after (past ++ [Command.sweep])).heap.Live ref →
    (books.after (past ++ [Command.sweep])).Reaches ref ∨
      (books.after (past ++ [Command.sweep])).heap.HeldByCycle ref
  exact : ∀ past, past ++ [Command.sweep] <+: commands →
    (books.after (past ++ [Command.sweep])).Acyclic → ∀ ref,
    (books.after (past ++ [Command.sweep])).heap.Live ref ↔ (books.after (past ++ [Command.sweep])).Reaches ref

variable {books : Books}

theorem Sound.live_of_reaches (sound : books.Sound) (reaches : books.Reaches ref) :
    books.heap.Live ref := by
  obtain ⟨root, member, leads⟩ := reaches
  exact sound.indexed.live_iff.2 (sound.balanced.not_released_of_leads member leads)

/-- After a sweep every object that is there is held. -/
theorem Sound.thrifty_sweep (sound : books.Sound) : (books.step .sweep).heap.Thrifty := by
  obtain ⟨next, swept, _⟩ := sound.balanced.sweep
  have done : (books.step .sweep).heap = next := by
    rw [heap_step, Command.perform, swept, ending_ok]
  rw [done]
  exact .of_sweep sound.indexed sound.balanced swept

/-- What is live after a sweep is reached from the ledger, held by a cycle, or a stray. -/
theorem Sound.traced (sound : books.Sound) (thrifty : books.heap.Thrifty)
    (live : books.heap.Live ref) :
    books.Reaches ref ∨ books.heap.HeldByCycle ref ∨ books.Strays ref := by
  rcases thrifty.traced sound.balanced sound.settled ref with
    reached | cycle | ⟨owner, gone, leads⟩
  · exact .inl reached
  · exact .inr (.inl cycle)
  · refine .inr (.inr ⟨owner, ⟨?_, gone⟩, leads⟩)
    rcases leads.cases_head with same | ⟨_, ⟨_, found⟩, _⟩
    · rw [same]
      exact live.1
    · exact lt_of_field? found

/-- In a tidy heap an object that is live is no stray. -/
theorem Sound.not_strays (sound : books.Sound) (tidy : books.heap.Tidy)
    (live : books.heap.Live ref) : ¬books.Strays ref := by
  rintro ⟨owner, ⟨_, gone⟩, leads⟩
  rcases leads.cases_head with same | ⟨_, ⟨_, found⟩, _⟩
  · rw [same, sound.indexed.live_iff.1 live] at gone
    cases gone
  · rw [field?, tidy owner gone] at found
    cases found

/-- The books after each part of an honest run are sound. -/
theorem sound_after {lastId : Nat} {past commands : List Command}
    (honest : (opening lastId).Honest commands) (within : past <+: commands) :
    ((opening lastId).after past).Sound := by
  obtain ⟨rest, rfl⟩ := within
  exact (Sound.opening lastId).after honest.append.1

/-- A run that orphans nothing keeps the heap tidy. -/
theorem tidy_after {lastId : Nat} {past commands : List Command}
    (fine : ∀ past command, past ++ [command] <+: commands →
      ¬command.Orphans ((opening lastId).after past).heap)
    (within : past <+: commands) : ((opening lastId).after past).heap.Tidy := by
  induction past using List.reverseRecOn with
  | nil => exact .startingAfter lastId
  | append_singleton past command ih =>
      rw [after_append]
      exact (tidy_step_iff (ih ((List.prefix_append past [command]).trans within))).2
        (fine past command within)

theorem safe {lastId : Nat} {commands : List Command} (honest : (opening lastId).Honest commands) :
    (opening lastId).Safe commands where
  kept _ within _ reaches := (sound_after honest within).live_of_reaches reaches
  held past within ref live := by
    have swept := (sound_after honest within).indexed.live_iff.1 live
    have before := sound_after honest ((List.prefix_append past [Command.sweep]).trans within)
    rw [after_append] at swept ⊢
    exact Nat.one_le_iff_ne_zero.2 (before.thrifty_sweep ref swept)

/-- An honest run is precise if no stray that a sweep leaves is out of reach. -/
theorem precise_of_strays {lastId : Nat} {commands : List Command}
    (honest : (opening lastId).Honest commands)
    (found : ∀ past, past ++ [Command.sweep] <+: commands → ∀ ref,
      ((opening lastId).after (past ++ [Command.sweep])).heap.Live ref →
      ((opening lastId).after (past ++ [Command.sweep])).Strays ref →
      ((opening lastId).after (past ++ [Command.sweep])).Reaches ref ∨
        ((opening lastId).after (past ++ [Command.sweep])).heap.HeldByCycle ref) :
    (opening lastId).Precise commands := by
  have traced : ∀ past, past ++ [Command.sweep] <+: commands → ∀ ref,
      ((opening lastId).after (past ++ [Command.sweep])).heap.Live ref →
      ((opening lastId).after (past ++ [Command.sweep])).Reaches ref ∨
        ((opening lastId).after (past ++ [Command.sweep])).heap.HeldByCycle ref := by
    intro past within ref live
    have before := sound_after honest ((List.prefix_append past [Command.sweep]).trans within)
    have thrifty := before.thrifty_sweep
    rw [← after_append] at thrifty
    rcases (sound_after honest within).traced thrifty live with reached | cycle | strays
    · exact .inl reached
    · exact .inr cycle
    · exact found past within ref live strays
  refine ⟨safe honest, traced, fun past within acyclic ref => ⟨fun live => ?_, ?_⟩⟩
  · rcases traced past within ref live with reached | ⟨point, cycle, _⟩
    · exact reached
    · exact absurd cycle (acyclic point)
  · exact (safe honest).kept _ within ref

/-- Every honest run is safe.  It is precise exactly if every stray that a sweep leaves is
reached from the ledger or held by a cycle, and there are no strays as long as no command
orphans an object. -/
theorem precise_unless_orphans (lastId : Nat) (commands : List Command)
    (honest : (opening lastId).Honest commands) :
    (opening lastId).Safe commands ∧
      ((opening lastId).Precise commands ↔
        ∀ past, past ++ [Command.sweep] <+: commands → ∀ ref,
          ((opening lastId).after (past ++ [Command.sweep])).heap.Live ref →
          ((opening lastId).after (past ++ [Command.sweep])).Strays ref →
          ((opening lastId).after (past ++ [Command.sweep])).Reaches ref ∨
            ((opening lastId).after (past ++ [Command.sweep])).heap.HeldByCycle ref) ∧
      ((∀ past command, past ++ [command] <+: commands →
          ¬command.Orphans ((opening lastId).after past).heap) →
        (opening lastId).Precise commands) := by
  refine ⟨safe honest, ⟨?_, precise_of_strays honest⟩, fun fine => ?_⟩
  · exact fun precise past within ref live _ => precise.traced past within ref live
  · refine precise_of_strays honest fun past within ref live strays => ?_
    exact absurd strays ((sound_after honest within).not_strays (tidy_after fine within) live)

/-- A cycle that is let go with what it holds, beside an object that is held and one that is
not. -/
def forlorn : List Command :=
  [.allocate "A" false, .ref (some 0), .allocate "B" false, .setField (some 0) "next" (some 1),
    .setField (some 1) "back" (some 0), .allocate "C" false, .setField (some 1) "item" (some 2),
    .unref (some 0), .allocate "D" true, .ref (some 3), .allocate "E" false, .sweep]

theorem honest_forlorn : (opening 0).Honest forlorn := by decide +kernel

theorem precise_forlorn :
    (opening 0).Honest forlorn ∧
      (opening 0).Safe forlorn ∧
      (∀ past command, past ++ [command] <+: forlorn →
        ¬command.Orphans ((opening 0).after past).heap) ∧
      (opening 0).Precise forlorn := by
  have fine : ∀ past command, past ++ [command] <+: forlorn →
      ¬command.Orphans ((opening 0).after past).heap :=
    not_orphans_of_index (by decide +kernel)
  obtain ⟨safe, _, precise⟩ := precise_unless_orphans 0 forlorn honest_forlorn
  exact ⟨honest_forlorn, safe, fine, precise fine⟩

/-- The object that replaced an object in its own field survives the sweep, though nothing
leads to it that is there. -/
theorem not_precise_selfless :
    (opening 0).Honest (selfless ++ [Command.sweep]) ∧ ¬(opening 0).Precise (selfless ++ [Command.sweep]) := by
  refine ⟨by decide +kernel, fun precise => ?_⟩
  obtain ⟨ledger, first, second, length, live⟩ :
      let books := (opening 0).after (selfless ++ [Command.sweep])
      books.ledger = [] ∧ (books.heap.object 0).fields.values = [1] ∧
        (books.heap.object 1).fields.values = [] ∧ books.heap.objects.length = 2 ∧
        1 < books.heap.objects.length ∧ books.heap.isLive (books.heap.object 1).id = true := by
    decide +kernel
  have owns : ∀ owner value, ((opening 0).after (selfless ++ [Command.sweep])).heap.Owns owner value →
      owner = 0 ∧ value = 1 := by
    rintro owner value ⟨name, found⟩
    have inside := lt_of_field? found
    have listed := mem_values_iff_owns.2 ⟨name, found⟩
    rw [length] at inside
    match owner, inside with
    | 0, _ =>
        rw [first] at listed
        exact ⟨rfl, List.mem_singleton.1 listed⟩
    | 1, _ =>
        rw [second] at listed
        cases listed
  rcases precise.traced selfless (List.prefix_refl _) 1 live with ⟨root, member, _⟩ | ⟨point, cycle, _⟩
  · rw [ledger] at member
    cases member
  · obtain ⟨_, leaves, _⟩ := TransGen.head'_iff.1 cycle
    obtain ⟨_, _, returns⟩ := TransGen.tail'_iff.1 cycle
    exact absurd ((owns _ _ leaves).1.symm.trans (owns _ _ returns).2) (by decide)

end Books

end Custody.Heap
