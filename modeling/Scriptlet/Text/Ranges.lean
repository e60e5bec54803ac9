/-!
# Sets of characters given by ranges of code points

A property of characters that a standard lists is kept as a table of inclusive ranges, in
ascending order.  `Ranges.holds` searches such a table from its low end and gives up at the
first range that starts beyond the code point sought, so for the low code points, where most
text lives, only the first few ranges are looked at.
-/

namespace Scriptlet

/-- Inclusive ranges of code points, in ascending order. -/
abbrev Ranges := List (Nat × Nat)

/-- Whether a code point lies in one of the ranges. -/
def Ranges.holds : Ranges → Nat → Bool
  | [], _ => false
  | (first, last) :: rest, n =>
    if n < first then false else if n ≤ last then true else Ranges.holds rest n

end Scriptlet
