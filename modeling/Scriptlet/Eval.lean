import Scriptlet.Scope
import Scriptlet.Tree

/-!
# Evaluation of expressions

Operands are evaluated from left to right, each once, and the first error ends the evaluation;
assignments made before it stay.  Operators act by the kind of their token.  A kind that is no
operator gives `nil`, which no parsed program can show.
-/

namespace Scriptlet

/-- An operator before a value. -/
def applyUnary (operator : Token) (v : Value) : Except RuntimeError Value :=
  match operator.kind with
  | .symbol .minus =>
    match v with
    | .number x => .ok (.number (-x))
    | _ => .error ⟨.operandNotNumber, operator.line⟩
  | .symbol .bang => .ok (.boolean !v.truthy)
  | _ => .ok .nil

/-- An operator between two numbers. -/
def applyNumeric (kind : Kind) (x y : Float) : Value :=
  match kind with
  | .symbol .minus => .number (x - y)
  | .symbol .slash => .number (x / y)
  | .symbol .star => .number (x * y)
  | .symbol .greater => .boolean (x > y)
  | .symbol .greaterEqual => .boolean (x ≥ y)
  | .symbol .less => .boolean (x < y)
  | .symbol .lessEqual => .boolean (x ≤ y)
  | _ => .nil

/-- An operator between two values. -/
def applyBinary (operator : Token) (a b : Value) : Except RuntimeError Value :=
  match operator.kind with
  | .symbol .equalEqual => .ok (.boolean (a.equals b))
  | .symbol .bangEqual => .ok (.boolean !a.equals b)
  | .symbol .plus =>
    match a, b with
    | .number x, .number y => .ok (.number (x + y))
    | .string s, .string t => .ok (.string (s ++ t))
    | _, _ => .error ⟨.operandsNotAddable, operator.line⟩
  | kind =>
    match a, b with
    | .number x, .number y => .ok (applyNumeric kind x y)
    | _, _ => .error ⟨.operandNotNumber, operator.line⟩

/-- Whether a left operand of this value decides alone. -/
def decides (operator : Token) (v : Value) : Bool :=
  match operator.kind with
  | .keyword .or => v.truthy
  | .keyword .and => !v.truthy
  | _ => false

/-- The value of an expression in a scope. -/
def eval (here : ScopeId) : Expr → EStateM RuntimeError Store Value
  | .literal v => pure v
  | .grouping inner => eval here inner
  | .unary operator operand => do
    let v ← eval here operand
    ofExcept (applyUnary operator v)
  | .binary left operator right => do
    let a ← eval here left
    let b ← eval here right
    ofExcept (applyBinary operator a b)
  | .logical left operator right => do
    let a ← eval here left
    if decides operator a then return a else eval here right
  | .reference name => do
    ofExcept ((← get).get here name)
  | .assign name value => do
    let v ← eval here value
    set (← ofExcept ((← get).assign here name v))
    return v

end Scriptlet
