import Custody.Text.Quoted

/-!
# Levels

The level selects which parameter effects are reported.  It is a byte: four
values have a name, and the others select nothing.  Letter case does not matter
when a level is read.
-/

namespace Custody.Settings

/-- Which parameter effects are reported. -/
structure Level where
  code : UInt8
  deriving DecidableEq, Inhabited, Repr

namespace Level

/-- Changed parameters. -/
def changes : Level := ⟨0⟩

/-- Changed parameters and those passed forward. -/
def escapes : Level := ⟨1⟩

/-- All parameters. -/
def all : Level := ⟨2⟩

/-- No parameters. -/
def off : Level := ⟨3⟩

/-- The name of a level, if it has one. -/
def name? (level : Level) : Option String :=
  ["changes", "escapes", "all", "off"][level.code.toNat]?

/-- The name of a level, or its number where it has none. -/
def text (level : Level) : String :=
  level.name?.getD ("Effects(" ++ toString level.code.toNat ++ ")")

/-- The message about a level without a name that should be written. -/
def unnamedMessage (level : Level) : String :=
  "unknown effects level " ++ toString level.code.toNat

/-- The message about a text that names no level. -/
def unknownMessage (text : String) : String := "unknown effects level " ++ Text.quote text

/-- Read a level.  No text at all stands for the least level. -/
def parse? (text : String) : Option Level :=
  let lower := text.toLower
  if ["", "true", "on", "changes"].contains lower then some changes
  else if lower = "escapes" then some escapes
  else if lower = "all" then some all
  else if ["off", "false"].contains lower then some off
  else none

end Level

end Custody.Settings
