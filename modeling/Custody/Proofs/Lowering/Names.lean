import Custody.Lowering.Names
import Custody.Proofs.Code.Paths
import Mathlib.Data.List.Nodup
import Mathlib.Data.List.Perm.Subperm

/-!
# Names that are free

A name that is taken gets a number, and the first number that makes it free is among
as many as there are names taken, and one more: names with different numbers differ.
So the search for a free name ends, however many names look like numbered ones.
-/

namespace Custody.Lowering

open Source
open Code (Path)

namespace Names

/-- The number can be read off a numbered name. -/
theorem numbered_injective (name : String) {number other : Nat}
    (same : numbered name number = numbered name other) : number = other := by
  have written : ∀ number, (numbered name (number + 1)).toList =
      name.toList ++ '_' :: Nat.toDigits 10 (number + 1) := by
    intro number
    simp [numbered]
  have plain : (numbered name 0).toList = name.toList := rfl
  have letters := congrArg String.toList same
  cases number with
  | zero =>
      cases other with
      | zero => rfl
      | succ other =>
          rw [plain, written] at letters
          simp at letters
  | succ number =>
      cases other with
      | zero =>
          rw [plain, written] at letters
          simp at letters
      | succ other =>
          rw [written, written] at letters
          have digits := (List.cons.inj (List.append_cancel_left letters)).2
          have read := congrArg (Nat.ofDigitChars 10 · 0) digits
          simpa only [Nat.ofDigitChars_ten_toDigits] using read

/-- One of as many numbers as there are names taken, and one more, makes a name free. -/
theorem exists_free (names : Names) (name : String) :
    ∃ number ∈ List.range (names.taken.size + 1),
      names.taken.contains (numbered name number) = false := by
  apply Classical.byContradiction
  intro none
  have listed : (List.range (names.taken.size + 1)).map (numbered name) ⊆ names.taken.keys := by
    intro candidate member
    obtain ⟨number, inside, rfl⟩ := List.mem_map.1 member
    rw [Table.mem_keys_iff]
    cases taken : names.taken.contains (numbered name number) with
    | true => rfl
    | false => exact absurd ⟨number, inside, taken⟩ none
  have distinct : ((List.range (names.taken.size + 1)).map (numbered name)).Nodup :=
    List.nodup_range.map fun _ _ same => numbered_injective name same
  have fewer := (distinct.subperm listed).length_le
  simp only [Table.keys, Table.size, List.length_map, List.length_range] at fewer
  omega

/-- A name gets the first number that makes it free. -/
theorem free_eq (names : Names) (name : String) :
    ∃ number ≤ names.taken.size, names.free name = numbered name number ∧
      names.taken.contains (numbered name number) = false ∧
      ∀ earlier < number, names.taken.contains (numbered name earlier) = true := by
  obtain ⟨witness, inside, isFree⟩ := names.exists_free name
  have some : ((List.range (names.taken.size + 1)).find? fun number =>
      !names.taken.contains (numbered name number)).isSome = true := by
    rw [List.find?_isSome]
    exact ⟨witness, inside, by simp [isFree]⟩
  obtain ⟨number, found⟩ := Option.isSome_iff_exists.1 some
  obtain ⟨free, within, first⟩ := List.find?_range_eq_some.1 found
  rw [List.mem_range] at within
  refine ⟨number, by omega, ?_, by simpa using free, ?_⟩
  · simp only [Names.free, found, Option.getD_some]
  · intro earlier less
    simpa using first earlier less

/-- A number makes no dots. -/
theorem isName_numbered {name : String} (whole : Path.IsName name) (number : Nat) :
    Path.IsName (numbered name number) := by
  unfold numbered
  split
  · exact whole
  · intro member
    simp only [String.toList_append, List.mem_append] at member
    rcases member with (inside | mark) | digit
    · exact whole inside
    · simp at mark
    · rw [Nat.toString_eq_ofList_toDigits, String.toList_ofList] at digit
      have isDigit := Nat.isDigit_of_mem_toDigits (by decide) (by decide) digit
      cases isDigit

end Names

end Custody.Lowering
