/-!
# Suppressing comments

A comment suppresses diagnostics if it is `//`, perhaps some blanks, `nolint:`
and a list of linters that has this one or all of them.  Linters are separated
by commas, letter case does not matter, and whatever follows the list does not
either.
-/

namespace Custody.Suppression

/-- The blanks that may stand before the directive. -/
def isBlank (letter : Char) : Bool := ['\t', '\n', '\x0c', '\r', ' '].contains letter

/-- The letters of a list of linters. -/
def isListLetter (letter : Char) : Bool :=
  letter.isAlphanum || [',', '_', '-'].contains letter

/-- Take a word off the start of a text. -/
def dropWord : List Char → List Char → Option (List Char)
  | [], text => some text
  | letter :: word, other :: text => if letter = other then dropWord word text else none
  | _ :: _, [] => none

/-- Cut a list of linters at its commas. -/
def splitCommas : List Char → List Char × List (List Char)
  | [] => ([], [])
  | letter :: rest =>
      let (first, others) := splitCommas rest
      if letter = ',' then ([], first :: others) else (letter :: first, others)

/-- Does a linter on the list stand for this analysis? -/
def names (linter : List Char) : Bool :=
  let lower := linter.map Char.toLower
  lower = "argeffect".toList || lower = "all".toList

/-- The list of linters of a directive. -/
def linters? (text : List Char) : Option (List Char) := do
  let rest ← dropWord "//".toList text
  let list ← dropWord "nolint:".toList (rest.dropWhile isBlank)
  return list.takeWhile isListLetter

/-- Does a comment suppress the diagnostics of this analysis? -/
def isDirective (comment : String) : Bool :=
  match linters? comment.toList with
  | some list =>
      let (first, others) := splitCommas list
      (first :: others).any names
  | none => false

end Custody.Suppression
