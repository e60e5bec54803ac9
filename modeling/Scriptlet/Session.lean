import Scriptlet.Machine
import Scriptlet.Parse
import Scriptlet.Token.Scan

/-!
# Running sources

A source is scanned, parsed and, if neither found an error, executed on a machine.  A machine may be
given one source after another: global variables stay, and a source with errors changes nothing.
-/

namespace Scriptlet

/-- How the run of a source ends. -/
inductive Outcome where
  /-- It ran to its end. -/
  | ok
  /-- It was rejected, and nothing of it ran. -/
  | rejected (errors : List SyntaxError)
  /-- It failed while running. -/
  | failed (e : RuntimeError)
  /-- It is not yet done. -/
  | unfinished
deriving DecidableEq

namespace Outcome

/-- The exit code of a run that ended. -/
def code? : Outcome → Option Nat
  | ok => some 0
  | rejected _ => some 65
  | failed _ => some 70
  | unfinished => none

/-- The text shown for a run that ended with errors. -/
def text? : Outcome → Option String
  | ok => none
  | rejected errors => some (SyntaxError.listText errors)
  | failed e => some e.text
  | unfinished => none

end Outcome

/-- A source after scanning and parsing: a program, or the errors of both, the scanner's first. -/
inductive Checked where
  /-- A program without errors. -/
  | program (statements : List Stmt)
  /-- The errors, at least one. -/
  | rejected (errors : List SyntaxError)
  /-- A stream of tokens that parsing goes round on. -/
  | endless

/-- Scans and parses a source. -/
def check (source : String) : Checked :=
  let scanned := scan source
  match parse? scanned.tokens with
  | none => .endless
  | some parsed =>
    match scanned.errors ++ parsed.errors with
    | [] => .program parsed.statements
    | errors => .rejected errors

/-- The run of a source on a machine. -/
structure Run (ω : Type := Sink) where
  /-- The statements that were handed to the machine. -/
  program : List Stmt
  /-- How it ended. -/
  outcome : Outcome
  /-- The machine afterwards. -/
  machine : Machine ω

/-- Runs a source on a machine. -/
def Machine.run {ω : Type} [Output ω] (rounds : Nat) (m : Machine ω) (source : String) : Run ω :=
  match check source with
  | .endless => ⟨[], .unfinished, m⟩
  | .rejected errors => ⟨[], .rejected errors, m⟩
  | .program statements =>
    match interpret rounds statements m with
    | .ok () m => ⟨statements, .ok, m⟩
    | .error (.error e) m => ⟨statements, .failed e, m⟩
    | .error .outOfRounds m => ⟨statements, .unfinished, m⟩

end Scriptlet
