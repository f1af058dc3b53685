/-!
# Names of enumerated values

Codes of an enumeration are written by name.  A code without a name is written
as the enumeration with the code in parentheses, such as `Effect(42)`.
-/

namespace Custody.Text

/-- The name of a code, or the enumeration and the code where it has none. -/
def enumerated (enumeration : String) (names : List String) (code : UInt8) : String :=
  names.getD code.toNat (enumeration ++ "(" ++ toString code.toNat ++ ")")

end Custody.Text
