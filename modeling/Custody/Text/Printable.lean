import Custody.Text.Invisible

/-!
# Printable characters

A character is printable if it has a visible form or is the plain blank.
-/

namespace Custody.Text

/-- Does the character have a visible form, or is it the plain blank? -/
def isPrintable (letter : Char) : Bool :=
  let code := letter.toNat
  if code < 0x80 then 0x20 ≤ code && code < 0x7f else !isInvisible code

end Custody.Text
