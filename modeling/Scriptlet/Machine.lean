import Scriptlet.Eval
import Scriptlet.Sink

/-!
# Execution of statements

A machine holds the scopes, knows the current one, and has a sink for its output, of any kind.  A
block runs in a new scope under the current one; however it ends, the scope before it is current
again and the new one is gone.

Execution is total because every loop is given a number of rounds.  A loop that would need more
stops the machine with `outOfRounds`, which is no error of the program: the machine is then simply
not yet done, and its output is the beginning of what it would write with more rounds.  A program
runs for ever if it is out of rounds with any number of them.
-/

namespace Scriptlet

/-- The state of a running program. -/
structure Machine (ω : Type := Sink) where
  /-- All scopes. -/
  store : Store
  /-- The current scope. -/
  here : ScopeId
  /-- Where output goes. -/
  sink : ω

section

variable {ω : Type}

/-- A machine with an empty global scope. -/
def Machine.new (sink : ω) : Machine ω :=
  { store := Store.add {} none, here := 0, sink }

/-- Why a machine stops before its program is done. -/
inductive Stop where
  /-- The program failed. -/
  | error (e : RuntimeError)
  /-- A loop used up its rounds. -/
  | outOfRounds
deriving DecidableEq

/-- What a machine does, up to its end or to where it stops. -/
abbrev ExecOn (ω : Type) := EStateM Stop (Machine ω)

/-- What a machine with a plain sink does. -/
abbrev Exec := ExecOn Sink

namespace Exec

/-- Evaluates an expression in the current scope. -/
def evaluate (e : Expr) : ExecOn ω Value := fun ⟨store, here, sink⟩ =>
  match eval here e store with
  | .ok v store => .ok v ⟨store, here, sink⟩
  | .error error store => .error (.error error) ⟨store, here, sink⟩

/-- Prints a value; a failure is blamed on a line of the source. -/
def printLine [Output ω] (v : Value) (line : Nat) : ExecOn ω Unit := fun ⟨store, here, sink⟩ =>
  match Output.print v sink with
  | (none, sink) => .ok () ⟨store, here, sink⟩
  | (some reason, sink) => .error (.error ⟨.outputFailed reason, line⟩) ⟨store, here, sink⟩

/-- Passes on the output. -/
def flush [Output ω] : ExecOn ω Unit := fun ⟨store, here, sink⟩ =>
  match Output.flush sink with
  | (none, sink) => .ok () ⟨store, here, sink⟩
  | (some reason, sink) => .error (.error ⟨.outputFailed reason, 0⟩) ⟨store, here, sink⟩

/-- Declares a variable in the current scope. -/
def define (name : String) (value : Value) : ExecOn ω Unit := fun ⟨store, here, sink⟩ =>
  .ok () ⟨store.define here name value, here, sink⟩

/-- Acts in another scope and returns to the current one, also after an error. -/
def within (scope : ScopeId) (action : ExecOn ω Unit) : ExecOn ω Unit := fun ⟨store, here, sink⟩ =>
  match action ⟨store, scope, sink⟩ with
  | .ok () ⟨store, _, sink⟩ => .ok () ⟨store, here, sink⟩
  | .error stop ⟨store, _, sink⟩ => .error stop ⟨store, here, sink⟩

/-- Acts in a new scope under the current one, which is removed afterwards, also after an
error. -/
def withinNew (action : ExecOn ω Unit) : ExecOn ω Unit := fun ⟨store, here, sink⟩ =>
  match within store.nextId action ⟨store.add (some here), here, sink⟩ with
  | .ok () ⟨store, here, sink⟩ => .ok () ⟨store.drop, here, sink⟩
  | .error stop ⟨store, here, sink⟩ => .error stop ⟨store.drop, here, sink⟩

/-- Acts as long as a condition holds, at most the given number of rounds. -/
def repeatWhile (condition : Expr) (action : ExecOn ω Unit) : Nat → ExecOn ω Unit
  | 0 => throw .outOfRounds
  | rounds + 1 => do
    if (← evaluate condition).truthy then
      action
      repeatWhile condition action rounds
    else
      return ()

end Exec

open Exec

variable [Output ω]

mutual

/-- Executes a statement; each loop in it may run the given number of rounds. -/
def execute (rounds : Nat) : Stmt → ExecOn ω Unit
  | .print value => do
    let v ← evaluate value
    printLine v (value.line?.getD 0)
  | .expression e => discard (evaluate e)
  | .var name none => define name.lexeme .nil
  | .var name (some init) => do
    let v ← evaluate init
    define name.lexeme v
  | .block body => withinNew (executeAll rounds body)
  | .branch condition yes none => do
    if (← evaluate condition).truthy then execute rounds yes else return ()
  | .branch condition yes (some no) => do
    if (← evaluate condition).truthy then execute rounds yes else execute rounds no
  | .loop condition body => repeatWhile condition (execute rounds body) rounds
termination_by structural s => s

/-- Executes statements in order, up to the first that stops. -/
def executeAll (rounds : Nat) : List Stmt → ExecOn ω Unit
  | [] => return ()
  | s :: rest => do
    execute rounds s
    executeAll rounds rest
termination_by structural body => body

end

/-- Executes statements in a given scope. -/
def executeIn (rounds : Nat) (scope : ScopeId) (body : List Stmt) : ExecOn ω Unit :=
  within scope (executeAll rounds body)

/-- Executes a whole program and then flushes the output, also if the program failed; its own
error is then the one that counts. -/
def interpret (rounds : Nat) (program : List Stmt) : ExecOn ω Unit := fun m =>
  match executeAll rounds program m with
  | .ok () m => flush m
  | .error (.error e) m =>
    match flush m with
    | .ok () m => .error (.error e) m
    | .error _ m => .error (.error e) m
  | .error .outOfRounds m => .error .outOfRounds m

end

end Scriptlet
