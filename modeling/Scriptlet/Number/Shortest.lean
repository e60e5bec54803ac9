import Scriptlet.Number.Decimal

/-!
# The shortest decimal of a binary number

Among the decimals that read back as a given number, `shortest` takes one with the fewest digits,
and of those the one nearest to the number.  It asks on coarser grids first: with one digit, with
two, up to seventeen, which always suffice.  On a grid only the two neighbours of the number can
be the answer, because the numbers that read back as it form an interval around it.
-/

namespace Scriptlet

namespace Binary64

/-- The least `k` for which the number lies below `10 ^ k`. -/
def magnitude (bits : Nat) : Int :=
  let whole := units bits / one
  if whole ≠ 0 then (Nat.toDigits 10 whole).length
  else 1 - (Nat.toDigits 10 ((one - 1) / units bits)).length

/-- Of the two multiples of `10 ^ exponent` around the number, one that reads back as it; if
both do, the nearer, and on a tie the upper. -/
def onGrid? (bits : Nat) (exponent : Int) : Option Decimal :=
  let up := Nat.pow 10 exponent.toNat
  let places := (-exponent).toNat
  let num := units bits * Nat.pow 10 places
  let den := one * up
  let lower : Decimal := ⟨num / den * up, places⟩
  let upper : Decimal := ⟨(num / den + 1) * up, places⟩
  if lower.bits = bits then
    if upper.bits = bits ∧ den ≤ 2 * (num % den) then some upper else some lower
  else if upper.bits = bits then some upper
  else none

/-- The number itself, every digit written out. -/
def exact (bits : Nat) : Decimal := ⟨units bits * Nat.pow 5 1074, 1074⟩

/-- The decimal with the fewest digits that reads back as the number. -/
def shortest (bits : Nat) : Decimal :=
  let found := (List.range 17).findSome? fun n => onGrid? bits (magnitude bits - (n + 1 : Nat))
  let d := found.getD (exact bits)
  Decimal.trimmed d.coefficient d.places

end Binary64

end Scriptlet
