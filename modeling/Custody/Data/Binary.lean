/-!
# Numbers with fifty-three binary digits

Programs that exchange documents keep numbers with fifty-three binary digits, and
write them in the fewest decimal digits that read back as the same number.  A
whole number below `2 ^ 53` comes out as it went in; the last digits of a greater
one may change on the way.
-/

namespace Custody

/-- The number `significand * 2 ^ exponent`. -/
structure Binary where
  significand : Nat
  exponent : Int
  deriving DecidableEq, Inhabited, Repr

namespace Binary

/-- The least exponent of a number; smaller numbers have fewer digits. -/
def leastExponent : Int := -1074

/-- The whole number nearest to a quotient; of two that are equally near, the
even one. -/
def roundDiv (num den : Nat) : Nat :=
  let rest := 2 * (num % den)
  if rest < den || (rest = den && num / den % 2 = 0) then num / den else num / den + 1

/-- The significand that a quotient has with an exponent, rounded by a rule. -/
def scale (round : Nat → Nat → Nat) (num den : Nat) (exponent : Int) : Nat :=
  round (num * Nat.pow 2 (-exponent).toNat) (den * Nat.pow 2 exponent.toNat)

/-- The number with the significand in its range: zero has the exponent zero, and
a carry out of the fifty-three digits goes into the exponent. -/
def normalize (number : Binary) : Binary :=
  if number.significand = 0 then ⟨0, 0⟩
  else if number.significand = Nat.pow 2 53 then ⟨Nat.pow 2 52, number.exponent + 1⟩
  else number

/-- The number nearest to a quotient. -/
def nearest (num den : Nat) : Binary :=
  let guess : Int := num.log2 - den.log2 - 52
  let exponent := max leastExponent
    (if scale (· / ·) num den guess < Nat.pow 2 52 then guess - 1 else guess)
  normalize ⟨scale roundDiv num den exponent, exponent⟩

/-- The value of a number that is whole. -/
def whole? (number : Binary) : Option Nat :=
  let divisor := Nat.pow 2 (-number.exponent).toNat
  if number.significand % divisor = 0 then
    some (number.significand / divisor * Nat.pow 2 number.exponent.toNat)
  else none

/-- The multiple of a unit that is nearest to a value among those that read back
as the number. -/
def nearby? (number : Binary) (value unit : Nat) : Option Nat :=
  let low := value / unit * unit
  let high := low + unit
  let candidates := if value - low ≤ high - value then [low, high] else [high, low]
  candidates.find? fun candidate => nearest candidate 1 = number

/-- The value with the most zeros at its end that reads back as the number. -/
def shortest (number : Binary) (value : Nat) : Nat :=
  ((List.range 20).reverse.findSome? fun zeros => number.nearby? value (Nat.pow 10 zeros)).getD value

/-- The integer as which the number `mantissa / 10 ^ places` is written after it
was kept, if it is written as one. -/
def integer? (mantissa : Int) (places : Nat) : Option Int :=
  let number := nearest mantissa.natAbs (Nat.pow 10 places)
  number.whole?.map fun value => mantissa.sign * number.shortest value

end Binary

end Custody
