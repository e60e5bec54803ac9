import Scriptlet.Number.Shortest

/-!
# Numbers as text

A finite number is written with the fewest digits that read back, never with an exponent and
without a point if it is whole.  Zero keeps its sign; what is no number has none.
-/

namespace Scriptlet

namespace Number

/-- The text of a bit pattern. -/
def textOfBits (bits : Nat) : String :=
  let size := bits % Binary64.signBit
  let sign := if bits < Binary64.signBit then "" else "-"
  if Binary64.infinity < size then "NaN"
  else if size = Binary64.infinity then sign ++ "inf"
  else sign ++ (Binary64.shortest size).text

/-- The text of a number. -/
def text (x : Float) : String := textOfBits x.toBits.toNat

/-- The number that a decimal fraction stands for. -/
def ofDecimal (d : Decimal) : Float := Float.ofBits (UInt64.ofNat d.bits)

end Number

end Scriptlet
