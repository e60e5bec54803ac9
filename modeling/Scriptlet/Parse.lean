import Scriptlet.Parse.Statement

/-!
# Parsing

`parse?` reads a stream of tokens to its end and returns the statements that could be read together
with all errors.  It has no answer only for a stream without an end of the source on which the
grammar goes round in circles.
-/

namespace Scriptlet

/-- What parsing a stream of tokens gives. -/
structure Parse where
  /-- The statements that could be read, in order. -/
  statements : List Stmt
  /-- The errors, in the order they were found. -/
  errors : List SyntaxError

/-- Parses a stream of tokens. -/
def parse? (tokens : List Token) : Option Parse :=
  match tokens.getLast? with
  | none => some ⟨[], []⟩
  | some last =>
    match (Rule.program (tokens.length + 1) : Rule _) ⟨tokens, last⟩ with
    | .done statements _ errors => some ⟨statements, errors⟩
    | .stuck _ errors => some ⟨[], errors⟩
    | .endless => none

end Scriptlet
