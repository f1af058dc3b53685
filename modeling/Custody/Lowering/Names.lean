import Custody.Code.Node
import Custody.Data.Table
import Custody.Source.Package

/-!
# Names of variables

Variables of a unit get names that are unique within the unit, so that shadowed
variables stay apart.  A name that is taken gets a number.
-/

namespace Custody.Lowering

open Source

/-- The names that variables have been given. -/
structure Names where
  given : Table EntityId String
  taken : KeySet String
  deriving Inhabited

namespace Names

/-- No names but that of the receiver are taken. -/
def start : Names := ⟨∅, KeySet.add ∅ Code.this⟩

/-- A name with a number; the number zero is not written. -/
def numbered (name : String) (number : Nat) : String :=
  if number = 0 then name else name ++ "_" ++ toString number

/-- The first name that is free.  One of as many numbers as there are names
taken, and one more, has to be. -/
def free (names : Names) (name : String) : String :=
  let numbers := List.range (names.taken.size + 1)
  numbered name ((numbers.find? fun number =>
    !names.taken.contains (numbered name number)).getD numbers.length)

/-- The name of a variable before it is made unique. -/
def wish (entity : Entity) : String :=
  if entity.name = "" || entity.name = "_" then "$" else entity.name

/-- The name of a variable. -/
def of? (names : Names) (entity : EntityId) : Option String := names.given.find? entity

end Names

/-- A step of the lowering of a unit. -/
abbrev Action : Type → Type := StateM Names

namespace Action

/-- Take a name that is free. -/
def fresh (name : String) : Action String := fun names =>
  let unique := names.free name
  (unique, { names with taken := names.taken.add unique })

/-- Give a variable a name. -/
def declare (id : EntityId) (entity : Entity) : Action String := do
  let unique ← fresh (Names.wish entity)
  modify fun names => { names with given := names.given.insert id unique }
  return unique

end Action

end Custody.Lowering
