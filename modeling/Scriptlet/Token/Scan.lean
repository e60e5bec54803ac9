import Scriptlet.Token.Segment
import Scriptlet.SyntaxError

/-!
# Tokens of a source

Literals, words and operators become tokens, in the order of the source and with their text as
lexeme; blanks and comments become nothing; a stray character or an unterminated text becomes an
error and nothing else.  The end of the source is a token of its own.

Lines are counted from one.  A segment ends on the line it starts on plus the newlines in its
text, and that is the line of its token; so a text over several lines belongs to its last line.
-/

namespace Scriptlet

namespace Segment

/-- How many lines a segment goes down. -/
def newlines (s : Segment) : Nat := s.text.count '\n'

/-- What token a segment is, if it is one. -/
def kind? : Segment → Option Kind
  | string body => some (.string (String.ofList body))
  | number whole fraction => some (.number (Number.ofDecimal (.ofDigits whole fraction)))
  | word name =>
    match Keyword.ofText? (String.ofList name) with
    | some k => some (.keyword k)
    | none => some (.identifier (String.ofList name))
  | operator s => some (.symbol s)
  | blank _ | comment _ | stray _ | unterminated _ => none

/-- The token of a segment that ends on the given line. -/
def token? (line : Nat) (s : Segment) : Option Token :=
  s.kind?.map fun kind => ⟨kind, String.ofList s.text, line⟩

/-- What is wrong with a segment, if something is. -/
def complaint? : Segment → Option Complaint
  | stray _ => some .unexpectedCharacter
  | unterminated _ => some .unterminatedString
  | _ => none

/-- The error of a segment that ends on the given line. -/
def error? (line : Nat) (s : Segment) : Option SyntaxError :=
  s.complaint?.map (SyntaxError.atLine line)

/-- The segments that start on a line, each with the line on which it ends, and the line on which
the last one ends. -/
def withLines (line : Nat) : List Segment → List (Nat × Segment) × Nat
  | [] => ([], line)
  | s :: rest =>
    let (tail, last) := withLines (line + s.newlines) rest
    ((line + s.newlines, s) :: tail, last)

end Segment

/-- What scanning a source gives. -/
structure Scan where
  /-- The tokens; the last one, and no other, is the end of the source. -/
  tokens : List Token
  /-- The errors, in the order of the source. -/
  errors : List SyntaxError
deriving DecidableEq

/-- Scans a source into tokens and errors. -/
def scan (source : String) : Scan :=
  let (segments, last) := Segment.withLines 1 (Segment.split source.toList)
  { tokens := segments.filterMap (fun (line, s) => s.token? line) ++ [⟨.endOfFile, "", last⟩]
    errors := segments.filterMap fun (line, s) => s.error? line }

end Scriptlet
