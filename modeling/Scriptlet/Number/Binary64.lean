/-!
# Binary floating point in whole numbers

Every finite number of the 64-bit format is a whole multiple of the least positive one,
`2 ^ -1074`.  Its **units** are that multiple, so all questions about such numbers become
questions about natural numbers:

* `units` reads the units off a bit pattern (the sign bit taken away), and is increasing in it;
* `roundDiv` divides to the nearest whole number, a tie going to the even one;
* `nearest` gives the bit pattern of the number nearest to a fraction, ties to the even pattern,
  and the pattern of infinity when the fraction is too large.

Patterns without sign bit count the numbers upwards from zero, so the successor of a number has
the next pattern, and a significand that is rounded up past its binade carries into the exponent
by itself.
-/

namespace Scriptlet

namespace Binary64

/-- How many patterns share one exponent field. -/
def binade : Nat := Nat.pow 2 52

/-- The bit pattern of positive infinity; greater patterns without sign bit are no numbers. -/
def infinity : Nat := 2047 * binade

/-- The bit pattern that holds the sign alone. -/
def signBit : Nat := Nat.pow 2 63

/-- How many units one is. -/
def one : Nat := Nat.pow 2 1074

/-- The units of the number with a given bit pattern, sign bit taken away: the significand,
shifted by the exponent field once that is above one. -/
def units (bits : Nat) : Nat :=
  if bits < binade then bits else (binade + bits % binade) * Nat.pow 2 (bits / binade - 1)

/-- The whole number nearest to `num / den`; a tie goes to the even one. -/
def roundDiv (num den : Nat) : Nat :=
  let q := num / den
  let r := num % den
  if 2 * r < den then q else if den < 2 * r then q + 1 else q + q % 2

/-- The bit pattern of the number nearest to `num / den`.  The quotient is rounded to 53
significant bits, or to a whole number of units if it has fewer. -/
def nearest (num den : Nat) : Nat :=
  let shift := (num * one / den).log2 - 52
  min infinity (shift * binade + roundDiv (num * one) (den * Nat.pow 2 shift))

end Binary64

end Scriptlet
