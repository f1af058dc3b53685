import Custody.Text.Printable

/-!
# Quoted text

Names in messages are written between double quotes.  The quote and the
backslash are escaped, control characters with a letter of their own use it,
other control characters are written with two hexadecimal digits, and other
characters without a visible form with four or eight.
-/

namespace Custody.Text

/-- A number in lower-case hexadecimal digits, filled up with zeros from the
left. -/
def hexadecimal (width code : Nat) : String :=
  let digits := Nat.toDigits 16 code
  String.ofList (List.replicate (width - digits.length) '0' ++ digits)

/-- The letter after the backslash for control characters that have one. -/
def escapeLetter? (letter : Char) : Option String :=
  match letter.toNat with
  | 0x07 => some "a"
  | 0x08 => some "b"
  | 0x09 => some "t"
  | 0x0a => some "n"
  | 0x0b => some "v"
  | 0x0c => some "f"
  | 0x0d => some "r"
  | _ => none

/-- One character of a quoted text. -/
def escape (letter : Char) : String :=
  if letter = '"' || letter = '\\' then "\\" ++ letter.toString
  else if isPrintable letter then letter.toString
  else match escapeLetter? letter with
    | some short => "\\" ++ short
    | none =>
        let code := letter.toNat
        if code < 0x80 then "\\x" ++ hexadecimal 2 code
        else if code < 0x10000 then "\\u" ++ hexadecimal 4 code
        else "\\U" ++ hexadecimal 8 code

/-- A text between double quotes. -/
def quote (text : String) : String :=
  "\"" ++ String.join (text.toList.map escape) ++ "\""

end Custody.Text
