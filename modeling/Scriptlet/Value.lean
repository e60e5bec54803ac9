import Scriptlet.Number.Text

/-!
# Values

What expressions evaluate to: nothing, a truth value, a number or a text.  Values of different
kinds are never equal, and there is no conversion between kinds; only the truth of a condition is
asked of every value.
-/

namespace Scriptlet

/-- A value of the language. -/
inductive Value where
  /-- The absence of a value. -/
  | nil
  /-- A truth value. -/
  | boolean (b : Bool)
  /-- A number. -/
  | number (x : Float)
  /-- A text. -/
  | string (s : String)
deriving DecidableEq

namespace Value

/-- The text that printing a value shows. -/
def text : Value → String
  | nil => "nil"
  | boolean true => "true"
  | boolean false => "false"
  | number x => Number.text x
  | string s => s

/-- Whether a value lets a condition hold: all do but `nil` and `false`. -/
def truthy : Value → Bool
  | nil => false
  | boolean b => b
  | number _ => true
  | string _ => true

/-- Equality as the language sees it.  Numbers are compared as numbers, so what is no number
differs from itself and the two zeros are equal. -/
def equals : Value → Value → Bool
  | nil, nil => true
  | boolean a, boolean b => a == b
  | number x, number y => x == y
  | string s, string t => s == t
  | _, _ => false

end Value

end Scriptlet
