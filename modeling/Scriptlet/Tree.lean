import Scriptlet.Token

/-!
# Program trees

Expressions and statements as the parser builds them.  Operators and names are kept as the tokens
they were read from: evaluation asks for their kind and, when something fails, for their line, and
variables are known by their lexeme.

* `Expr.line?` is the line an expression is blamed on;
* `Expr.text` and `Stmt.text` show a tree as nested lists, the operator first.
-/

namespace Scriptlet

/-- An expression. -/
inductive Expr where
  /-- A value written out. -/
  | literal (v : Value)
  /-- An expression in parentheses. -/
  | grouping (inner : Expr)
  /-- An operator before its operand. -/
  | unary (operator : Token) (operand : Expr)
  /-- An operator between two operands, both of which are evaluated. -/
  | binary (left : Expr) (operator : Token) (right : Expr)
  /-- An operator whose left operand may decide alone. -/
  | logical (left : Expr) (operator : Token) (right : Expr)
  /-- The value of a variable. -/
  | reference (name : Token)
  /-- A new value for a variable. -/
  | assign (name : Token) (value : Expr)
deriving DecidableEq

/-- A statement. -/
inductive Stmt where
  /-- Writes a value and a newline. -/
  | print (value : Expr)
  /-- Evaluates for the effect. -/
  | expression (e : Expr)
  /-- Declares a variable in the current scope. -/
  | var (name : Token) (init : Option Expr)
  /-- Statements in a scope of their own. -/
  | block (body : List Stmt)
  /-- One of two statements, by a condition. -/
  | branch (condition : Expr) (yes : Stmt) (no : Option Stmt)
  /-- A statement repeated as long as a condition holds. -/
  | loop (condition : Expr) (body : Stmt)

namespace Expr

/-- The line of the leftmost token kept in the tree, if there is one. -/
def line? : Expr → Option Nat
  | literal _ => none
  | grouping inner => inner.line?
  | unary operator _ => some operator.line
  | binary left operator _ => left.line?.or (some operator.line)
  | logical left operator _ => left.line?.or (some operator.line)
  | reference name => some name.line
  | assign name _ => some name.line

/-- An expression as text.  Text literals stand between quotes, as they are. -/
def text : Expr → String
  | literal (.string s) => "\"" ++ s ++ "\""
  | literal v => v.text
  | grouping inner => "(group " ++ inner.text ++ ")"
  | unary operator operand => "(" ++ operator.lexeme ++ " " ++ operand.text ++ ")"
  | binary left operator right =>
    "(" ++ operator.lexeme ++ " " ++ left.text ++ " " ++ right.text ++ ")"
  | logical left operator right =>
    "(" ++ operator.lexeme ++ " " ++ left.text ++ " " ++ right.text ++ ")"
  | reference name => name.lexeme
  | assign name value => "(= " ++ name.lexeme ++ " " ++ value.text ++ ")"

end Expr

namespace Stmt

/-- The expression that a statement itself evaluates. -/
def expr? : Stmt → Option Expr
  | print value => some value
  | expression e => some e
  | var _ init => init
  | block _ => none
  | branch condition _ _ => some condition
  | loop condition _ => some condition

/-- The line of a statement's own expression. -/
def line? (s : Stmt) : Option Nat := s.expr?.bind Expr.line?

mutual

/-- A statement as text. -/
def text : Stmt → String
  | print value => "(print " ++ value.text ++ ")"
  | expression e => "(; " ++ e.text ++ ")"
  | var name (some init) => "(var " ++ name.lexeme ++ " " ++ init.text ++ ")"
  | var name none => "(var " ++ name.lexeme ++ ")"
  | block body => "(block" ++ listText body ++ ")"
  | branch condition yes (some no) =>
    "(if " ++ condition.text ++ " " ++ yes.text ++ " " ++ no.text ++ ")"
  | branch condition yes none => "(if " ++ condition.text ++ " " ++ yes.text ++ ")"
  | loop condition body => "(while " ++ condition.text ++ " " ++ body.text ++ ")"
termination_by structural s => s

/-- Statements as text, a space before each. -/
def listText : List Stmt → String
  | [] => ""
  | s :: rest => " " ++ s.text ++ listText rest
termination_by structural body => body

end

end Stmt

end Scriptlet
