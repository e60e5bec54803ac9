/-!
# The command line

Arguments are read from left to right.  Those that start with a dash are options, up to an argument
`--`, after which all are plain; at most one plain argument, the script, may be given.  A request
for help or for the version is granted where it is met, and an unknown option or a second script is
refused where it is met; that the one flag was given twice is noticed only at the end.
-/

namespace Scriptlet

/-- What the program is asked to do. -/
inductive Invocation where
  /-- Show how it is used. -/
  | help
  /-- Show its version. -/
  | version
  /-- Nothing that it can do. -/
  | misuse
  /-- Run a script, showing its trees or not. -/
  | script (path : String) (showTrees : Bool)
  /-- Read and run lines, showing their trees or not. -/
  | prompt (showTrees : Bool)
deriving Repr, DecidableEq

namespace Invocation

/-- What a single argument is, before options have ended. -/
inductive Argument where
  /-- The end of the options. -/
  | endOfOptions
  /-- The flag that shows trees. -/
  | showTrees
  /-- A request for help. -/
  | help
  /-- A request for the version. -/
  | version
  /-- An option there is not. -/
  | unknown
  /-- No option. -/
  | plain
deriving Repr, DecidableEq

/-- An option written out.  What follows an equals sign is of no account. -/
def longOption (name : List Char) : Argument :=
  match String.ofList (name.takeWhile (· != '=')) with
  | "print-ast" => .showTrees
  | "help" => .help
  | "version" => .version
  | _ => .unknown

/-- Tells what an argument is.  A dash alone and the empty argument are plain. -/
def classify (arg : String) : Argument :=
  match arg.toList with
  | ['-', '-'] => .endOfOptions
  | '-' :: '-' :: name => longOption (name.dropWhile (· == '-'))
  | '-' :: 'h' :: _ => .help
  | '-' :: 'V' :: _ => .version
  | '-' :: _ :: _ => .unknown
  | _ => .plain

/-- The invocation by a script, if one was given, and the number of flags. -/
def conclude (script : Option String) (flags : Nat) : Invocation :=
  if 1 < flags then .misuse
  else match script with
    | some path => .script path (flags == 1)
    | none => .prompt (flags == 1)

/-- Reads arguments that are all plain. -/
def readPlain (script : Option String) (flags : Nat) : List String → Invocation
  | [] => conclude script flags
  | arg :: rest =>
    match script with
    | none => readPlain (some arg) flags rest
    | some _ => .misuse

/-- Reads arguments after some that gave a script, or none, and a number of flags. -/
def read (script : Option String) (flags : Nat) : List String → Invocation
  | [] => conclude script flags
  | arg :: rest =>
    match classify arg with
    | .endOfOptions => readPlain script flags rest
    | .showTrees => read script (flags + 1) rest
    | .help => .help
    | .version => .version
    | .unknown => .misuse
    | .plain =>
      match script with
      | none => read (some arg) flags rest
      | some _ => .misuse

/-- The invocation by the arguments of the program. -/
def ofArguments (args : List String) : Invocation := read none 0 args

/-- What a request for the version shows. -/
def versionText : String := "treelox \n"

/-- What a request for help shows. -/
def helpText : String :=
  "\n".intercalate
    [ "treelox ",
      "Tree-walking interpreter for a small scripting language",
      "",
      "USAGE:",
      "    treelox [FLAGS] [SCRIPT]",
      "",
      "FLAGS:",
      "    -h, --help         Prints help information",
      "        --print-ast    Print each parsed statement to stderr before running it",
      "    -V, --version      Prints version information",
      "",
      "ARGS:",
      "    <SCRIPT>    Script to run; starts a prompt when omitted",
      "" ]

/-- What a misuse is answered with, in words of no account. -/
def misuseText : String :=
  "error: these arguments cannot be used\n\nUSAGE:\n    treelox [FLAGS] [SCRIPT]\n\n" ++
    "For more information try --help\n"

end Invocation

end Scriptlet
