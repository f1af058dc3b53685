/-!
# Unit identifiers

A unit is a method or a constructor, named by its class and its member name.
Identifiers are written `Class.Member`, are read back by cutting at the first
dot, and are ordered by class and then by member.
-/

namespace Custody

/-- The name of a method or constructor: the class that declares it and its
member name there. -/
structure UnitId where
  owner : String
  member : String
  deriving DecidableEq, Inhabited, Repr

namespace UnitId

/-- The written form `Class.Member`. -/
def text (unit : UnitId) : String := unit.owner ++ "." ++ unit.member

/-- Several units as one text, `[A.f B.g]`. -/
def listText (units : List UnitId) : String :=
  "[" ++ " ".intercalate (units.map text) ++ "]"

/-- Cut a character list at its first dot. -/
def cutDot : List Char → Option (List Char × List Char)
  | [] => none
  | '.' :: rest => some ([], rest)
  | letter :: rest => (cutDot rest).map fun (before, after) => (letter :: before, after)

/-- Read `Class.Member`.  The class ends at the first dot, and neither part may
be empty. -/
def parse? (text : String) : Option UnitId :=
  match cutDot text.toList with
  | some (owner, member) =>
      if owner.isEmpty || member.isEmpty then none
      else some ⟨String.ofList owner, String.ofList member⟩
  | none => none

/-- Units are ordered by class, and by member within a class. -/
instance : Ord UnitId :=
  ⟨compareLex (compareOn UnitId.owner) (compareOn UnitId.member)⟩

theorem compare_eq (left right : UnitId) :
    compare left right =
      (compare left.owner right.owner).then (compare left.member right.member) := rfl

instance : Std.TransOrd UnitId :=
  inferInstanceAs (Std.TransCmp (compareLex (compareOn UnitId.owner) (compareOn UnitId.member)))

instance : Std.LawfulEqOrd UnitId where
  compare_self := by
    intro unit
    simp
  eq_of_compare := by
    intro left right equal
    rw [compare_eq, Ordering.then_eq_eq] at equal
    cases left
    cases right
    simp_all

end UnitId

end Custody
