import Custody.Suppression.Directive
import Mathlib.Data.List.TakeWhile

/-!
# The grammar of directives

A directive is `//`, any number of blanks, `nolint:` and a list of linters, which goes as far as
there are letters of a list.  `Parses` says so without saying how a text is read, and `Enlists`
says which lists count.  Reading accepts exactly what the two describe.
-/

namespace Custody.Suppression

variable {text word list rest blanks : List Char} {letter : Char}

/-- A tab, a newline, a form feed, a carriage return or a space. -/
def Blank (letter : Char) : Prop :=
  letter = '\t' ∨ letter = '\n' ∨ letter = '\x0c' ∨ letter = '\r' ∨ letter = ' '

/-- A letter of either case, a digit, a comma, an underscore or a hyphen. -/
def ListLetter (letter : Char) : Prop :=
  ('a' ≤ letter ∧ letter ≤ 'z') ∨ ('A' ≤ letter ∧ letter ≤ 'Z') ∨ ('0' ≤ letter ∧ letter ≤ '9') ∨
    letter = ',' ∨ letter = '_' ∨ letter = '-'

/-- A text consists of `//`, blanks, `nolint:`, a list and a rest that does not carry the list
on. -/
structure Parses (text blanks list rest : List Char) : Prop where
  split : text = "//".toList ++ (blanks ++ ("nolint:".toList ++ (list ++ rest)))
  blank : ∀ letter ∈ blanks, Blank letter
  inhabited : list ≠ []
  letters : ∀ letter ∈ list, ListLetter letter
  longest : ∀ letter, rest.head? = some letter → ¬ListLetter letter

/-- Of the entries between the commas of a list one is the name of this analysis or stands for
all, letter case aside. -/
def Enlists (list : List Char) : Prop :=
  ∃ entries : List (List Char), list = [','].intercalate entries ∧ (∀ entry ∈ entries, ',' ∉ entry) ∧
    ∃ entry ∈ entries, entry.map Char.toLower = "argeffect".toList ∨
      entry.map Char.toLower = "all".toList

/-! ## Letters -/

theorem isBlank_iff : isBlank letter = true ↔ Blank letter := by
  simp [isBlank, Blank]

theorem isAlphanum_iff : letter.isAlphanum = true ↔
    ('a' ≤ letter ∧ letter ≤ 'z') ∨ ('A' ≤ letter ∧ letter ≤ 'Z') ∨ ('0' ≤ letter ∧ letter ≤ '9') := by
  have upper : letter.isUpper = true ↔ 'A' ≤ letter ∧ letter ≤ 'Z' := decide_eq_true_iff
  have lower : letter.isLower = true ↔ 'a' ≤ letter ∧ letter ≤ 'z' :=
    Bool.and_eq_true_iff.trans (and_congr decide_eq_true_iff decide_eq_true_iff)
  have digit : letter.isDigit = true ↔ '0' ≤ letter ∧ letter ≤ '9' :=
    Bool.and_eq_true_iff.trans (and_congr decide_eq_true_iff decide_eq_true_iff)
  have parts : letter.isAlphanum = (letter.isUpper || letter.isLower || letter.isDigit) := rfl
  rw [parts, Bool.or_eq_true, Bool.or_eq_true, upper, lower, digit]
  exact (or_congr_left or_comm).trans or_assoc

theorem isListLetter_iff : isListLetter letter = true ↔ ListLetter letter := by
  simp only [isListLetter, ListLetter, Bool.or_eq_true, isAlphanum_iff, List.contains_eq_mem,
    decide_eq_true_eq, List.mem_cons, List.not_mem_nil, or_false, or_assoc]

/-! ## Words and runs -/

/-- A word is taken off exactly the texts that start with it. -/
theorem dropWord_eq_some_iff : dropWord word text = some rest ↔ text = word ++ rest := by
  fun_induction dropWord word text with
  | case1 text => simp
  | case2 letter word text ih => simp [ih]
  | case3 letter word other text apart => simp [Ne.symm apart]
  | case4 letter word => simp

/-- A run is the longest one if what follows does not carry it on. -/
theorem takeWhile_append {property : Char → Bool} (all : ∀ letter ∈ list, property letter = true)
    (longest : ∀ letter, rest.head? = some letter → property letter = false) :
    (list ++ rest).takeWhile property = list ∧ (list ++ rest).dropWhile property = rest := by
  rw [List.takeWhile_append_of_pos all, List.dropWhile_append_of_pos all]
  cases rest with
  | nil => simp
  | cons letter rest => simp [longest letter rfl]

/-- Each run ends where what follows does not carry it on. -/
theorem head?_dropWhile {property : Char → Bool} (ends : (text.dropWhile property).head? = some letter) :
    property letter = false := by
  have stopped := List.head?_dropWhile_not property text
  rw [ends] at stopped
  exact stopped

/-- A list of linters is read exactly where the grammar has it. -/
theorem linters?_eq_some_iff (inhabited : list ≠ []) :
    linters? text = some list ↔ ∃ blanks rest, Parses text blanks list rest := by
  simp only [linters?, Option.bind_eq_bind, Option.bind_eq_some_iff, dropWord_eq_some_iff]
  constructor
  · rintro ⟨after, rfl, run, named, same⟩
    cases same
    refine ⟨after.takeWhile isBlank, run.dropWhile isListLetter, ?_, ?_, inhabited, ?_, ?_⟩
    · rw [List.takeWhile_append_dropWhile, ← named, List.takeWhile_append_dropWhile]
    · exact fun letter member => isBlank_iff.1 (List.mem_takeWhile_imp member)
    · exact fun letter member => isListLetter_iff.1 (List.mem_takeWhile_imp member)
    · intro letter ends also
      rw [← isListLetter_iff, head?_dropWhile ends] at also
      cases also
  · rintro ⟨blanks, rest, split, blank, _, letters, longest⟩
    have gap : (blanks ++ ("nolint:".toList ++ (list ++ rest))).dropWhile isBlank =
        "nolint:".toList ++ (list ++ rest) := by
      refine (takeWhile_append (fun letter member => isBlank_iff.2 (blank letter member)) ?_).2
      intro letter starts
      cases starts
      decide
    have run : (list ++ rest).takeWhile isListLetter = list := by
      refine (takeWhile_append (fun letter member => isListLetter_iff.2 (letters letter member)) ?_).1
      intro letter starts
      rw [← Bool.not_eq_true, isListLetter_iff]
      exact longest letter starts
    exact ⟨_, split, list ++ rest, gap, congrArg some run⟩

/-! ## Entries -/

/-- The entries are what stands between the commas. -/
theorem splitCommas_eq (list : List Char) :
    (splitCommas list).1 :: (splitCommas list).2 = list.splitOn ',' := by
  induction list with
  | nil => rfl
  | cons letter rest ih =>
      rw [List.splitOn_cons_eq_if_modifyHead, ← ih]
      simp only [splitCommas, beq_iff_eq]
      split <;> rfl

/-- No entry has a comma. -/
theorem comma_not_mem (list : List Char) :
    ∀ entry ∈ (splitCommas list).1 :: (splitCommas list).2, ',' ∉ entry := by
  induction list with
  | nil =>
      intro entry member
      cases List.mem_singleton.1 member
      exact List.not_mem_nil
  | cons letter rest ih =>
      obtain ⟨first, others⟩ := List.forall_mem_cons.1 ih
      simp only [splitCommas]
      split
      next =>
        intro entry member
        rcases List.mem_cons.1 member with rfl | later
        · exact List.not_mem_nil
        · exact ih entry later
      next apart =>
        refine List.forall_mem_cons.2 ⟨fun member => ?_, others⟩
        rcases List.mem_cons.1 member with same | inside
        · exact apart same.symm
        · exact first inside

theorem names_iff : names list = true ↔
    list.map Char.toLower = "argeffect".toList ∨ list.map Char.toLower = "all".toList := by
  simp only [names, Bool.or_eq_true, decide_eq_true_eq]

/-- The lists that count are those with an entry that does. -/
theorem enlists_iff : Enlists list ↔
    ((splitCommas list).1 :: (splitCommas list).2).any names = true := by
  rw [List.any_eq_true]
  constructor
  · rintro ⟨entries, rfl, apart, entry, member, named⟩
    rw [splitCommas_eq, List.splitOn_intercalate ',' apart (List.ne_nil_of_mem member)]
    exact ⟨entry, member, names_iff.2 named⟩
  · rintro ⟨entry, member, named⟩
    refine ⟨_, ?_, comma_not_mem list, entry, member, names_iff.1 named⟩
    rw [splitCommas_eq, List.intercalate_splitOn]

theorem Enlists.ne_nil (enlists : Enlists list) : list ≠ [] := by
  rintro rfl
  exact absurd (enlists_iff.1 enlists) (by decide)

/-- A comment is a directive for this analysis exactly if the grammar says so and the list has
an entry for it; what follows the list is of no account. -/
theorem isDirective_iff (comment : String) :
    isDirective comment = true ↔
      ∃ blanks list rest, Parses comment.toList blanks list rest ∧ Enlists list := by
  unfold isDirective
  constructor
  · intro found
    split at found
    next list read =>
      have enlists := enlists_iff.2 found
      obtain ⟨blanks, rest, parses⟩ := (linters?_eq_some_iff enlists.ne_nil).1 read
      exact ⟨blanks, list, rest, parses, enlists⟩
    next => cases found
  · rintro ⟨blanks, list, rest, parses, enlists⟩
    rw [(linters?_eq_some_iff parses.inhabited).2 ⟨blanks, rest, parses⟩]
    exact enlists_iff.1 enlists

example : isDirective "// nolint:,ArgEffect,//" = true ∧ isDirective "//nolint:argeffects" = false := by
  decide +kernel

end Custody.Suppression
