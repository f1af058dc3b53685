import Custody.Source.Package
import Custody.Suppression.Directive

/-!
# Suppressed positions

Diagnostics are suppressed in generated files, and where a comment says so: the
comment before the package clause for a whole file, the comment before a
function for the function, and a comment at the end of a line for the line.
-/

namespace Custody.Suppression

open Source

/-- The functions of a file that are suppressed, from their first position to
the position after the last. -/
structure Span where
  start : Int
  stop : Int
  deriving DecidableEq, Inhabited, Repr

/-- What is known of a file for suppression. -/
structure CheckedFile where
  file : File
  generated : Bool
  /-- Is the whole file suppressed? -/
  suppressed : Bool
  functions : List Span
  deriving Inhabited

/-- A text cut at line ends. -/
def splitLines : List Char → List Char × List (List Char)
  | [] => ([], [])
  | letter :: rest =>
      let (first, others) := splitLines rest
      if letter = '\n' then ([], first :: others) else (letter :: first, others)

/-- Does a line say that a file is generated? -/
def isGeneratedLine (line : List Char) : Bool :=
  match dropWord "// Code generated ".toList line with
  | some rest => " DO NOT EDIT.".toList.isSuffixOf rest
  | none => false

/-- Does a comment say that a file is generated? -/
def isGeneratedComment (comment : String) : Bool :=
  let (first, others) := splitLines comment.toList
  (first :: others).any isGeneratedLine

/-- Does a comment up to the package clause say that the file is generated? -/
def isGenerated (file : File) : Bool :=
  file.comments.any fun group =>
    (group.takeWhile (·.pos ≤ file.packagePos)).any fun comment => isGeneratedComment comment.text

/-- Is the last comment of a group a directive? -/
def endsInDirective (file : File) (group : Option Nat) : Bool :=
  match (group.bind (file.comments[·]?)).bind List.getLast? with
  | some comment => isDirective comment.text
  | none => false

/-- Check a file.  A file that is not in the set of files cannot be checked. -/
def CheckedFile.of? (file : File) : Option CheckedFile :=
  if file.detached then none
  else some
    { file
      generated := isGenerated file
      suppressed := endsInDirective file file.doc
      functions := (file.decls.filter fun decl => endsInDirective file decl.doc).map fun decl =>
        ⟨decl.pos, decl.endPos⟩ }

namespace CheckedFile

/-- Does a position lie in the file? -/
def contains (checked : CheckedFile) (pos : Int) : Bool :=
  checked.file.base ≤ pos && pos ≤ checked.file.base + checked.file.size

/-- The line of a position. -/
def line (checked : CheckedFile) (pos : Int) : Nat :=
  (checked.file.lines.filter (· ≤ pos - checked.file.base)).length

/-- The position of a group of comments. -/
def groupPos (group : List Comment) : Int :=
  match group with
  | comment :: _ => comment.pos
  | [] => 0

/-- The place of the first group at or after a position between two places,
for groups in the order of their positions. -/
def searchGroup (groups : List (List Comment)) (pos : Int) (low high : Nat) : Nat :=
  if low < high then
    let middle := (low + high) / 2
    if (groups[middle]?.map groupPos).any (· < pos) then searchGroup groups pos (middle + 1) high
    else searchGroup groups pos low middle
  else low
  termination_by high - low

/-- Does the first comment at or after a position stand on its line and suppress
it? -/
def hasLineDirective (checked : CheckedFile) (pos : Int) : Bool :=
  let groups := checked.file.comments
  match (groups[searchGroup groups pos 0 groups.length]?).bind List.head? with
  | some comment =>
      checked.line comment.pos == checked.line pos && isDirective comment.text
  | none => false

/-- Is a position suppressed by a comment? -/
def ignores (checked : CheckedFile) (pos : Int) : Bool :=
  checked.suppressed ||
    checked.functions.any (fun span => span.start ≤ pos && pos < span.stop) ||
    checked.hasLineDirective pos

end CheckedFile

/-- The files of a package, and whether generated files are left alone. -/
structure Index where
  files : List CheckedFile
  /-- Are generated files analyzed like others? -/
  generated : Bool
  deriving Inhabited

/-- Are diagnostics at a position suppressed?  The first file that has the
position decides. -/
def Index.suppresses (index : Index) (pos : Int) : Bool :=
  match index.files.find? (·.contains pos) with
  | some checked => (checked.generated && !index.generated) || checked.ignores pos
  | none => false

end Custody.Suppression
