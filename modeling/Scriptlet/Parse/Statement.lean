import Scriptlet.Parse.Expression

/-!
# Rules for statements

A declaration is read with recovery: if it cannot be finished it is dropped, and reading goes on
at the next boundary.  Everything that nests, a block or the body of a loop, is built from
declarations and statements, so one source can report many errors.

There is no statement for a `for` loop in the tree; `Stmt.counted` builds one from the others.
-/

namespace Scriptlet

/-- A `for` loop: the increment runs after the body in each round, and the initializer runs before
the first, in a scope around the loop. -/
def Stmt.counted (init : Option Stmt) (condition : Expr) (increment : Option Expr) (body : Stmt) :
    Stmt :=
  let round := match increment with
    | some e => .block [body, .expression e]
    | none => body
  match init with
  | some s => .block [s, .loop condition round]
  | none => .loop condition round

namespace Rule

variable {m : Type → Type} [Reader m]

/-- An optional initializer and the end of a variable declaration. -/
def varDeclaration (expression : m Expr) : m Stmt := do
  let name ← expect Kind.isIdentifier .expectVariableName
  let init ← if ← accept (Kind.isSymbol .equal) then some <$> expression else pure none
  discard (expect (Kind.isSymbol .semicolon) .expectVariableEnd)
  return .var name init

/-- An expression used as a statement. -/
def expressionStatement (expression : m Expr) : m Stmt := do
  let e ← expression
  discard (expect (Kind.isSymbol .semicolon) .expectExpressionEnd)
  return .expression e

/-- What follows the keyword `print`. -/
def printStatement (expression : m Expr) : m Stmt := do
  let value ← expression
  discard (expect (Kind.isSymbol .semicolon) .expectValueEnd)
  return .print value

/-- The first clause of a `for` loop, its end included. -/
def forInit (expression : m Expr) : m (Option Stmt) := do
  match ← peek with
  | .symbol .semicolon =>
    discard advance
    return none
  | .keyword .var =>
    discard advance
    some <$> varDeclaration expression
  | _ => some <$> expressionStatement expression

/-- What follows the keyword `for`.  A loop without condition goes on for ever. -/
def forStatement (expression : m Expr) (statement : m Stmt) : m Stmt := do
  discard (expect (Kind.isSymbol .leftParen) .expectForStart)
  let init ← forInit expression
  let condition ←
    if (← peek).isSymbol .semicolon then pure (.literal (.boolean true)) else expression
  discard (expect (Kind.isSymbol .semicolon) .expectForCondition)
  let increment ← if (← peek).isSymbol .rightParen then pure none else some <$> expression
  discard (expect (Kind.isSymbol .rightParen) .expectForEnd)
  let body ← statement
  return .counted init condition increment body

/-- What follows the keyword `if`.  An `else` belongs to the nearest `if` before it. -/
def ifStatement (expression : m Expr) (statement : m Stmt) : m Stmt := do
  discard (expect (Kind.isSymbol .leftParen) .expectIfStart)
  let condition ← expression
  discard (expect (Kind.isSymbol .rightParen) .expectIfEnd)
  let yes ← statement
  let no ← if ← accept (Kind.isKeyword .else) then some <$> statement else pure none
  return .branch condition yes no

/-- What follows the keyword `while`. -/
def whileStatement (expression : m Expr) (statement : m Stmt) : m Stmt := do
  discard (expect (Kind.isSymbol .leftParen) .expectWhileStart)
  let condition ← expression
  discard (expect (Kind.isSymbol .rightParen) .expectWhileEnd)
  let body ← statement
  return .loop condition body

/-- A declaration or a statement, or nothing where neither could be read. -/
def declaration (expression : m Expr) (statement : m Stmt) : m (Option Stmt) :=
  recover do
    if ← accept (Kind.isKeyword .var) then varDeclaration expression else statement

/-- Declarations up to the end of the source or to a token that stops them. -/
def declarations (stop : Kind → Bool) (declaration : m (Option Stmt)) : Nat → m (List Stmt)
  | 0 => endless
  | bound + 1 => do
    if ← stopped stop then
      return []
    else
      let head ← declaration
      let tail ← declarations stop declaration bound
      return head.toList ++ tail

/-- What follows an opening brace, the closing one included. -/
def block (declaration : m (Option Stmt)) (bound : Nat) : m Stmt := do
  let body ← declarations (Kind.isSymbol .rightBrace) declaration bound
  discard (expect (Kind.isSymbol .rightBrace) .expectBlockEnd)
  return .block body

/-- A statement. -/
def statement (expression : m Expr) : Nat → m Stmt
  | 0 => endless
  | bound + 1 => do
    match ← peek with
    | .keyword .for =>
      discard advance
      forStatement expression (statement expression bound)
    | .keyword .if =>
      discard advance
      ifStatement expression (statement expression bound)
    | .keyword .print =>
      discard advance
      printStatement expression
    | .keyword .while =>
      discard advance
      whileStatement expression (statement expression bound)
    | .symbol .leftBrace =>
      discard advance
      block (declaration expression (statement expression bound)) (bound + 1)
    | _ => expressionStatement expression

/-- A whole program. -/
def program (bound : Nat) : m (List Stmt) :=
  let statement := statement (expression bound) bound
  declarations (fun _ => false) (declaration (expression bound) statement) bound

end Rule

end Scriptlet
