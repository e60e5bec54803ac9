import Scriptlet.Number.Binary64

/-!
# Decimal fractions

A decimal fraction is a whole number of tenths, hundredths and so on.  It is written in plain
positional form: digits, and if it has places a point with at least one digit before it.
`Decimal.ofDigits` reads the form that `Decimal.digits` writes, and `Decimal.bits` is the binary
number that the fraction stands for in a program.
-/

namespace Scriptlet

/-- The fraction `coefficient / 10 ^ places`. -/
structure Decimal where
  /-- All digits, read as a whole number. -/
  coefficient : Nat
  /-- How many of the digits stand after the point. -/
  places : Nat
deriving Repr, DecidableEq

namespace Decimal

/-- The fraction with the given digits before and after the point. -/
def ofDigits (whole fraction : List Char) : Decimal :=
  ⟨Nat.ofDigitChars 10 (whole ++ fraction) 0, fraction.length⟩

/-- The digits before and after the point, zeros put in front so that one stands before it. -/
def digits (d : Decimal) : List Char × List Char :=
  let all := (Nat.toDigits 10 d.coefficient).leftpad (d.places + 1) '0'
  all.splitAt (all.length - d.places)

/-- The written form. -/
def text (d : Decimal) : String :=
  match d.digits with
  | (whole, []) => String.ofList whole
  | (whole, fraction) => String.ofList (whole ++ '.' :: fraction)

/-- The bit pattern of the nearest binary number. -/
def bits (d : Decimal) : Nat := Binary64.nearest d.coefficient (Nat.pow 10 d.places)

/-- `coefficient / 10 ^ places` without zeros at the end of its places. -/
def trimmed (coefficient : Nat) : Nat → Decimal
  | 0 => ⟨coefficient, 0⟩
  | places + 1 =>
    if coefficient % 10 = 0 then trimmed (coefficient / 10) places
    else ⟨coefficient, places + 1⟩

end Decimal

end Scriptlet
