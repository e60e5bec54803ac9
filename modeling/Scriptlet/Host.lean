import Scriptlet.CommandLine
import Scriptlet.Directory
import Scriptlet.Session

/-!
# The program as a whole

What the program shows on its two channels and its exit code, for every way it can be invoked: as a
function of the invocation, of the files it can read, and of its input.

At the prompt every line of the input is a source of its own, and all run on one machine.  The mark
`> ` is shown before each line and before the end of the input is noticed.  A line that is no text
ends the program.
-/

namespace Scriptlet

/-- What running one source shows. -/
structure Reply where
  /-- What the source wrote. -/
  output : ByteArray
  /-- The trees of its statements, if they are asked for. -/
  trees : String
  /-- How it ended. -/
  outcome : Outcome
  /-- The machine afterwards. -/
  machine : Machine

namespace Reply

/-- The error text of a run, on lines of its own. -/
def errorText (reply : Reply) : String :=
  match reply.outcome.text? with
  | some text => text ++ "\n"
  | none => ""

/-- All that goes to the second channel: trees, then errors. -/
def notices (reply : Reply) : String := reply.trees ++ reply.errorText

end Reply

/-- The trees of statements, one on a line. -/
def treeLines (program : List Stmt) : String := String.join (program.map fun s => s.text ++ "\n")

/-- Runs one source on a machine, whose sink starts empty. -/
def respond (rounds : Nat) (showTrees : Bool) (m : Machine) (source : String) : Reply :=
  let run := { m with sink := ({} : Sink) }.run rounds source
  { output := run.machine.sink.written
    trees := if showTrees then treeLines run.program else ""
    outcome := run.outcome
    machine := run.machine }

/-- What the program shows from start to end. -/
structure Transcript where
  /-- The first channel. -/
  stdout : ByteArray
  /-- The second channel. -/
  stderr : String
  /-- The exit code; none if the program is not yet done. -/
  code : Option Nat

namespace Transcript

/-- The transcript after something else was shown. -/
def after (stdout : ByteArray) (stderr : String) (t : Transcript) : Transcript :=
  { t with stdout := stdout ++ t.stdout, stderr := stderr ++ t.stderr }

end Transcript

/-- The exit code when input cannot be read. -/
def readFailureCode : Nat := 74

/-- The exit code of a misuse. -/
def misuseCode : Nat := 64

/-- The text of the bytes of a file. -/
def decode (bytes : ByteArray) : Except ReadFailure String :=
  match String.fromUTF8? bytes with
  | some source => .ok source
  | none => .error .notText

/-- What is shown for a script that cannot be read. -/
def unreadable (path : String) (failure : ReadFailure) : String :=
  "Could not read " ++ path ++ ": " ++ failure.text ++ "\n"

/-- Runs the source in what was read, on a machine; a failure if it is none. -/
def attempt (rounds : Nat) (showTrees : Bool) (m : Machine)
    (contents : Except ReadFailure ByteArray) : Except ReadFailure Reply :=
  (contents.bind decode).map (respond rounds showTrees m)

/-- Runs a script, given what reading its file gave. -/
def runScript (rounds : Nat) (showTrees : Bool) (path : String)
    (contents : Except ReadFailure ByteArray) : Transcript :=
  match attempt rounds showTrees (Machine.new {}) contents with
  | .error failure => ⟨.empty, unreadable path failure, some readFailureCode⟩
  | .ok reply => ⟨reply.output, reply.notices, reply.outcome.code?⟩

namespace Prompt

/-- What is shown before a line is read. -/
def mark : ByteArray := "> ".toUTF8

/-- The lines of an input, each with its newline; the last one may lack it. -/
def lines : List UInt8 → List (List UInt8)
  | [] => []
  | b :: rest =>
    if b = 10 then [b] :: lines rest
    else match lines rest with
      | [] => [[b]]
      | line :: more => (b :: line) :: more

/-- A line without its newline, and without a carriage return before that. -/
def withoutEnding (line : List UInt8) : List UInt8 :=
  match line.reverse with
  | 10 :: 13 :: body => body.reverse
  | 10 :: body => body.reverse
  | _ => line

/-- Runs the source on a line, on a machine. -/
def turn (rounds : Nat) (showTrees : Bool) (m : Machine) (line : List UInt8) :
    Except ReadFailure Reply :=
  attempt rounds showTrees m (.ok ⟨(withoutEnding line).toArray⟩)

/-- What is shown for a line that is no text. -/
def unreadable (failure : ReadFailure) : String := failure.text ++ "\n"

/-- Reads and runs lines on a machine. -/
def answer (rounds : Nat) (showTrees : Bool) (m : Machine) : List (List UInt8) → Transcript
  | [] => ⟨mark, "", some 0⟩
  | line :: rest =>
    match turn rounds showTrees m line with
    | .error failure => ⟨mark, unreadable failure, some readFailureCode⟩
    | .ok reply =>
      let next := match reply.outcome.code? with
        | some _ => answer rounds showTrees reply.machine rest
        | none => ⟨.empty, "", none⟩
      next.after (mark ++ reply.output) reply.notices

end Prompt

/-- Runs the program as it was invoked: `files` tells what reading a path gives, and `input` is what
can be read from the first channel. -/
def Invocation.transcript (rounds : Nat) (files : String → Except ReadFailure ByteArray)
    (input : List UInt8) : Invocation → Transcript
  | .help => ⟨helpText.toUTF8, "", some 0⟩
  | .version => ⟨versionText.toUTF8, "", some 0⟩
  | .misuse => ⟨.empty, misuseText, some misuseCode⟩
  | .script path showTrees => runScript rounds showTrees path (files path)
  | .prompt showTrees => Prompt.answer rounds showTrees (Machine.new {}) (Prompt.lines input)

/-- Runs the program with arguments. -/
def transcript (rounds : Nat) (args : List String)
    (files : String → Except ReadFailure ByteArray) (input : List UInt8) : Transcript :=
  (Invocation.ofArguments args).transcript rounds files input

end Scriptlet
