import Scriptlet.Token

/-!
# Errors in a source

A source is rejected with a list of errors, each with its line, the place it points at and the
complaint.  The wording of all of them is here.
-/

namespace Scriptlet

/-- What an error points at, beside its line. -/
inductive Place where
  /-- The line as a whole. -/
  | line
  /-- The end of the source. -/
  | finish
  /-- A token, by its text. -/
  | lexeme (text : String)
deriving Repr, DecidableEq

/-- How a place is named after the word `Error`. -/
def Place.text : Place → String
  | line => ""
  | finish => " at end"
  | lexeme s => " at '" ++ s ++ "'"

/-- What is wrong. -/
inductive Complaint where
  /-- A character that starts nothing. -/
  | unexpectedCharacter
  /-- A text literal without closing quote. -/
  | unterminatedString
  /-- An assignment to something that is no variable. -/
  | invalidAssignmentTarget
  /-- A missing expression. -/
  | expectExpression
  /-- A group that is not closed. -/
  | expectGroupEnd
  /-- An expression used as a statement is not ended. -/
  | expectExpressionEnd
  /-- A `print` statement is not ended. -/
  | expectValueEnd
  /-- A declaration without name. -/
  | expectVariableName
  /-- A declaration is not ended. -/
  | expectVariableEnd
  /-- A block that is not closed. -/
  | expectBlockEnd
  /-- An `if` without condition. -/
  | expectIfStart
  /-- The condition of an `if` is not closed. -/
  | expectIfEnd
  /-- A `while` without condition. -/
  | expectWhileStart
  /-- The condition of a `while` is not closed. -/
  | expectWhileEnd
  /-- A `for` without clauses. -/
  | expectForStart
  /-- The condition of a `for` is not ended. -/
  | expectForCondition
  /-- The clauses of a `for` are not closed. -/
  | expectForEnd
  /-- A complaint of the host, in its own words. -/
  | other (message : String)
deriving Repr, DecidableEq

/-- The wording of a complaint. -/
def Complaint.message : Complaint → String
  | unexpectedCharacter => "Unexpected character."
  | unterminatedString => "Unterminated string."
  | invalidAssignmentTarget => "Invalid assignment target."
  | expectExpression => "Expect expression."
  | expectGroupEnd => "Expect ')' after expression."
  | expectExpressionEnd => "Expect ';' after expression."
  | expectValueEnd => "Expect ';' after value."
  | expectVariableName => "Expect variable name."
  | expectVariableEnd => "Expect ';' after variable declaration."
  | expectBlockEnd => "Expect '\x7d' after block."
  | expectIfStart => "Expect '(' after 'if'."
  | expectIfEnd => "Expect ')' after if condition."
  | expectWhileStart => "Expect '(' after 'while'."
  | expectWhileEnd => "Expect ')' after while condition."
  | expectForStart => "Expect '(' after 'for'."
  | expectForCondition => "Expect ';' after loop condition."
  | expectForEnd => "Expect ')' after for clauses."
  | other message => message

/-- An error that keeps a source from running. -/
structure SyntaxError where
  /-- The line it is reported on. -/
  line : Nat
  /-- What it points at. -/
  place : Place
  /-- What is wrong. -/
  complaint : Complaint
deriving Repr, DecidableEq

namespace SyntaxError

/-- A complaint about a line. -/
def atLine (line : Nat) (complaint : Complaint) : SyntaxError := ⟨line, .line, complaint⟩

/-- A complaint about a token. -/
def atToken (t : Token) (complaint : Complaint) : SyntaxError :=
  ⟨t.line, if t.kind.isEnd then .finish else .lexeme t.lexeme, complaint⟩

/-- The text shown for an error. -/
def text (e : SyntaxError) : String :=
  "[line " ++ toString e.line ++ "] Error" ++ e.place.text ++ ": " ++ e.complaint.message

/-- The text shown for several errors, one on a line. -/
def listText (errors : List SyntaxError) : String := "\n".intercalate (errors.map text)

end SyntaxError

end Scriptlet
