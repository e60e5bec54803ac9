import Scriptlet.Parse.Rule
import Scriptlet.Tree

/-!
# Rules for expressions

From the loosest binding to the tightest:

    assignment := operand [ = assignment ]
    operand    := six levels of operators, each a left-leaning chain of the next one
    unary      := ( ! | - ) unary | primary
    primary    := literal | name | ( assignment )

A rule that calls itself has a bound on how often it does.  A bound above the number of tokens is
never reached unless the rule is endless, because every round uses up a token.
-/

namespace Scriptlet

/-- The levels of operators between two operands. -/
inductive Level where
  | or
  | and
  | equality
  | comparison
  | term
  | factor
deriving Repr, DecidableEq

namespace Level

/-- All levels, the loosest first. -/
def all : List Level := [or, and, equality, comparison, term, factor]

/-- The operators of a level. -/
def has : Level → Kind → Bool
  | or, .keyword .or => true
  | and, .keyword .and => true
  | equality, .symbol .bangEqual | equality, .symbol .equalEqual => true
  | comparison, .symbol .greater | comparison, .symbol .greaterEqual => true
  | comparison, .symbol .less | comparison, .symbol .lessEqual => true
  | term, .symbol .minus | term, .symbol .plus => true
  | factor, .symbol .slash | factor, .symbol .star => true
  | _, _ => false

/-- The tree of an operator of a level and its operands. -/
def join : Level → Expr → Token → Expr → Expr
  | or, left, operator, right => .logical left operator right
  | and, left, operator, right => .logical left operator right
  | _, left, operator, right => .binary left operator right

end Level

namespace Rule

variable {m : Type → Type} [Reader m]

/-- A literal, a name, or an expression in parentheses. -/
def primary (expression : m Expr) : m Expr := do
  let kind ← peek
  match kind.literal? with
  | some v =>
    discard advance
    return .literal v
  | none =>
    match kind with
    | .identifier _ => return .reference (← advance)
    | .symbol .leftParen =>
      discard advance
      let inner ← expression
      discard (expect (Kind.isSymbol .rightParen) .expectGroupEnd)
      return .grouping inner
    | _ => fail .expectExpression

/-- Operators before an operand. -/
def unary (expression : m Expr) : Nat → m Expr
  | 0 => endless
  | bound + 1 => do
    match ← peek with
    | .symbol .bang | .symbol .minus =>
      let operator ← advance
      let operand ← unary expression bound
      return .unary operator operand
    | _ => primary expression

/-- What may follow the first operand of a level: operators of the level, each with an operand. -/
def chain (level : Level) (operand : m Expr) : Nat → Expr → m Expr
  | 0, _ => endless
  | bound + 1, left => do
    if level.has (← peek) then
      let operator ← advance
      let right ← operand
      chain level operand bound (level.join left operator right)
    else
      return left

/-- An operand of operators looser than all the given levels, which are ordered the loosest
first. -/
def operand (unary : m Expr) (bound : Nat) : List Level → m Expr
  | [] => unary
  | level :: tighter => do
    let left ← operand unary bound tighter
    chain level (operand unary bound tighter) bound left

/-- Finishes an assignment whose left side and equals sign have been read.  A left side that is no
variable is reported, and the value stands alone. -/
def assignTo (target : Expr) (equals : Token) (value : Expr) : m Expr :=
  match target with
  | .reference name => return .assign name value
  | _ => do
    report (SyntaxError.atToken equals .invalidAssignmentTarget)
    return value

/-- An expression. -/
def expression : Nat → m Expr
  | 0 => endless
  | bound + 1 => do
    let target ← operand (unary (expression bound) (bound + 1)) (bound + 1) Level.all
    if (← peek).isSymbol .equal then
      let equals ← advance
      let value ← expression bound
      assignTo target equals value
    else
      return target

end Rule

end Scriptlet
