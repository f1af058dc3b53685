/-!
# Integer literals

An integer is written with an optional sign, an optional mark of its base
(`0x`, `0o`, `0b`, or a leading `0` for base eight), and digits.  Underscores may
stand between digits, and between the mark and the first digit.

Numbers are read into sixty-four bits.  Digits are consumed from the left, and a
number that leaves the range is recognized at the digit where it does so: what
follows that digit is not looked at.
-/

namespace Custody.Text.Integer

/-- Why a text is no number. -/
inductive Error where
  /-- The text does not have the form of a number. -/
  | malformed
  /-- The number is too large or too small; this is the nearest one. -/
  | outOfRange (nearest : Int)
  deriving DecidableEq, Repr

/-- The value of a digit in any base. -/
def digit? (letter : Char) : Option Nat :=
  let code := letter.toNat
  if 0x30 ≤ code && code ≤ 0x39 then some (code - 0x30)
  else if 0x61 ≤ code && code ≤ 0x7a then some (code - 0x61 + 10)
  else if 0x41 ≤ code && code ≤ 0x5a then some (code - 0x41 + 10)
  else none

/-- The base of a literal and its digits. -/
def splitBase : List Char → Nat × List Char
  | '0' :: mark :: digit :: rest =>
      if mark = 'b' || mark = 'B' then (2, digit :: rest)
      else if mark = 'o' || mark = 'O' then (8, digit :: rest)
      else if mark = 'x' || mark = 'X' then (16, digit :: rest)
      else (8, mark :: digit :: rest)
  | '0' :: rest => (8, rest)
  | letters => (10, letters)

/-- The largest number of sixty-four bits without a sign. -/
def largest : Nat := Nat.pow 2 64 - 1

/-- The least integer of sixty-four bits. -/
def least : Int := -(Nat.pow 2 63 : Nat)

/-- The greatest integer of sixty-four bits. -/
def greatest : Int := (Nat.pow 2 63 : Nat) - 1

/-- Read digits after a number read so far, passing over underscores.  A number
above the largest one is `none`. -/
def readDigits (base : Nat) : List Char → Nat → Except Error (Option Nat)
  | [], value => .ok (some value)
  | letter :: rest, value =>
      if letter = '_' then readDigits base rest value
      else match digit? letter with
        | none => .error .malformed
        | some digit =>
            if base ≤ digit then .error .malformed
            else
              let next := value * base + digit
              if largest < next then .ok none else readDigits base rest next

/-- What the last letter was, for the place of underscores. -/
inductive Last where
  | start
  | digit
  | underscore
  | other
  deriving DecidableEq, Repr

/-- Does every underscore stand between digits, given the last letter? -/
def separated (isDigit : Char → Bool) : List Char → Last → Bool
  | [], last => last != .underscore
  | letter :: rest, last =>
      if isDigit letter then separated isDigit rest .digit
      else if letter = '_' then last = .digit && separated isDigit rest .underscore
      else last != .underscore && separated isDigit rest .other

/-- Does every underscore of a literal stand between digits?  The mark of the
base counts as a digit. -/
def underscoresFit (letters : List Char) : Bool :=
  let isDecimal (letter : Char) : Bool := '0' ≤ letter && letter ≤ '9'
  let isHexadecimal (letter : Char) : Bool := (digit? letter).any (· < 16)
  match letters with
  | '0' :: mark :: rest =>
      if mark = 'x' || mark = 'X' then separated isHexadecimal rest .digit
      else if ['b', 'B', 'o', 'O'].contains mark then separated isDecimal rest .digit
      else separated isDecimal letters .start
  | letters => separated isDecimal letters .start

/-- Read a number without a sign; one above the largest is `none`. -/
def readMagnitude (letters : List Char) : Except Error (Option Nat) :=
  if letters.isEmpty then .error .malformed
  else
    let (base, digits) := splitBase letters
    match readDigits base digits 0 with
    | .ok (some value) =>
        if letters.contains '_' && !underscoresFit letters then .error .malformed
        else .ok (some value)
    | answer => answer

/-- Read an integer of sixty-four bits. -/
def parse (text : String) : Except Error Int :=
  let (negative, letters) :=
    match text.toList with
    | '-' :: rest => (true, rest)
    | '+' :: rest => (false, rest)
    | letters => (false, letters)
  match readMagnitude letters with
  | .error error => .error error
  | .ok magnitude =>
      let size : Int := (magnitude.getD largest : Nat)
      let value := if negative then -size else size
      if value < least then .error (.outOfRange least)
      else if greatest < value then .error (.outOfRange greatest)
      else .ok value

end Custody.Text.Integer
