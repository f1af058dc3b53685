/-!
# Dotted paths

A qualifier is read as a path of segments between dots.  There is always a
first segment; it may be empty, as may every other.
-/

namespace Custody.Code

/-- A first segment and the segments after it. -/
structure Path where
  first : String
  rest : List String
  deriving DecidableEq, Inhabited, Repr

namespace Path

/-- Cut a character list at every dot. -/
def split : List Char → List Char × List (List Char)
  | [] => ([], [])
  | letter :: letters =>
      let (first, rest) := split letters
      if letter = '.' then ([], first :: rest) else (letter :: first, rest)

/-- The path that a qualifier denotes. -/
def parse (qualifier : String) : Path :=
  let (first, rest) := split qualifier.toList
  ⟨String.ofList first, rest.map String.ofList⟩

end Path

end Custody.Code
