import Scriptlet.Host

/-!
# The executable

Reads files and the standard input, and shows what the library answers, script by script and line by
line: `attempt` and `Prompt.turn` are what the transcript of a program is made of, too.  A source
that is not yet done is run again with more rounds; since its output then only grows, what is new is
shown at once.
-/

namespace Scriptlet

/-- Runs a source with more and more rounds until it is done, showing its trees first and its output
as it comes.  `run` is what comes of it with a number of rounds, and `shown` is how much of the
output has been shown already. -/
partial def carryOut (run : Nat → Except ReadFailure Reply) (rounds : Nat := 4096)
    (shown : Option Nat := none) : IO (Except ReadFailure Reply) := do
  match run rounds with
  | .error failure => return .error failure
  | .ok reply =>
    if shown.isNone then (← IO.getStderr).putStr reply.trees
    let stdout ← IO.getStdout
    stdout.write (reply.output.extract (shown.getD 0) reply.output.size)
    stdout.flush
    match reply.outcome with
    | .unfinished => carryOut run (8 * rounds) (some reply.output.size)
    | _ =>
      (← IO.getStderr).putStr reply.errorText
      return .ok reply

/-- The bytes of a file, or why they cannot be had. -/
def readScript (path : String) : IO (Except ReadFailure ByteArray) := do
  try
    return .ok (← IO.FS.readBinFile path)
  catch e =>
    match e with
    | .noFileOrDirectory .. => return .error .missing
    | .inappropriateType _ 21 _ => return .error .directory
    | .inappropriateType .. => return .error .notDirectory
    | .permissionDenied .. => return .error (.other "Permission denied (os error 13)")
    | e => return .error (.other (toString e))

/-- Reads the bytes of a line, its newline included; none at the end of the input. -/
partial def readLine (stdin : IO.FS.Stream) (line : Array UInt8 := #[]) : IO (List UInt8) := do
  let bytes ← stdin.read 1
  match bytes.toList with
  | [] => return line.toList
  | 10 :: _ => return (line.push 10).toList
  | b :: _ => readLine stdin (line.push b)

/-- Reads and runs lines until the input ends. -/
partial def converse (showTrees : Bool) (m : Machine) : IO UInt32 := do
  let stdout ← IO.getStdout
  stdout.write Prompt.mark
  stdout.flush
  match ← readLine (← IO.getStdin) with
  | [] => return 0
  | line =>
    match ← carryOut (Prompt.turn · showTrees m line) with
    | .error failure =>
      (← IO.getStderr).putStr (Prompt.unreadable failure)
      return readFailureCode.toUInt32
    | .ok reply => converse showTrees reply.machine

/-- Runs a script file. -/
def perform (showTrees : Bool) (path : String) : IO UInt32 := do
  let contents ← readScript path
  match ← carryOut (attempt · showTrees (Machine.new {}) contents) with
  | .error failure =>
    (← IO.getStderr).putStr (unreadable path failure)
    return readFailureCode.toUInt32
  | .ok reply => return (reply.outcome.code?.getD 0).toUInt32

end Scriptlet

/-- The program. -/
def main (args : List String) : IO UInt32 := do
  match Scriptlet.Invocation.ofArguments args with
  | .help =>
    IO.print Scriptlet.Invocation.helpText
    return 0
  | .version =>
    IO.print Scriptlet.Invocation.versionText
    return 0
  | .misuse =>
    IO.eprint Scriptlet.Invocation.misuseText
    return Scriptlet.misuseCode.toUInt32
  | .script path showTrees => Scriptlet.perform showTrees path
  | .prompt showTrees => Scriptlet.converse showTrees (Scriptlet.Machine.new {})
