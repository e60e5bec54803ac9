import Scriptlet.Proofs.Actions

/-!
# Programs with resolved names

The blocks around a place in a program are known from its text, and so are the declarations that
stand before the place in each of them.  That is enough to say in how many scopes from the inside
the variable of a name is: its **hops**.  Here the hops of every variable are put into the tree
once, before anything runs, and a resolved program runs without ever looking for a name: it climbs
as many parents as the tree says.

* `Blocks`, `hops` : the blocks around a place with their earlier declarations, and the hops of a
  name there;
* `Resolved.Expr`, `Resolved.Stmt` : trees in which each variable has its hops;
* `Expr.resolved`, `Stmt.resolved` : the resolved tree, by recursion on the text;
* `Resolved.interpret` : the run of a resolved program.
-/

namespace Scriptlet

/-! ### Places in a program -/

/-- The names declared so far in each of the blocks around a place, the innermost block first. -/
abbrev Blocks := List (List String)

/-- The name that a statement declares, if it is a declaration. -/
def Stmt.varNames : Stmt → List String
  | .var name _ => [name.lexeme]
  | _ => []

namespace Blocks

/-- The place behind some declarations.  Those outside of all blocks are not counted: the global
scope may hold any names. -/
def declare (names : List String) : Blocks → Blocks
  | [] => []
  | block :: blocks => (block ++ names) :: blocks

/-- How many blocks out from a place a name is declared; if it is in none of them, how many there
are, which leads to the global scope. -/
def hops (blocks : Blocks) (name : String) : Nat := blocks.findIdx (name ∈ ·)

@[simp]
theorem declare_nil (blocks : Blocks) : blocks.declare [] = blocks := by
  cases blocks <;> simp [declare]

theorem declare_append (names more : List String) (blocks : Blocks) :
    blocks.declare (names ++ more) = (blocks.declare names).declare more := by
  cases blocks <;> simp [declare]

theorem hops_le (blocks : Blocks) (name : String) : blocks.hops name ≤ blocks.length :=
  List.findIdx_le_length

end Blocks

/-! ### Scopes by their distance -/

namespace Store

/-- The scope so many parents up. -/
def climb (store : Store) : Nat → ScopeId → Option ScopeId
  | 0, id => some id
  | hops + 1, id => (store.parent? id).bind (store.climb hops)

/-- The value that a variable has in a scope. -/
def getIn (store : Store) (home : ScopeId) (name : Token) : Except RuntimeError Value :=
  match store.bound? home name.lexeme with
  | some value => .ok value
  | none => .error (undefined name)

/-- Gives a variable of a scope a new value. -/
def assignIn (store : Store) (home : ScopeId) (name : Token) (value : Value) :
    Except RuntimeError Store :=
  if (store.bound? home name.lexeme).isSome then .ok (store.define home name.lexeme value)
  else .error (undefined name)

end Store

/-! ### Resolved trees -/

namespace Resolved

/-- An expression in which each variable has its hops. -/
inductive Expr where
  | literal (v : Value)
  | grouping (inner : Expr)
  | unary (operator : Token) (operand : Expr)
  | binary (left : Expr) (operator : Token) (right : Expr)
  | logical (left : Expr) (operator : Token) (right : Expr)
  | reference (name : Token) (hops : Nat)
  | assign (name : Token) (hops : Nat) (value : Expr)

/-- A statement in which each variable has its hops.  Output is blamed on the line at hand. -/
inductive Stmt where
  | print (value : Expr) (line : Nat)
  | expression (e : Expr)
  | var (name : Token) (init : Option Expr)
  | block (body : List Stmt)
  | branch (condition : Expr) (yes : Stmt) (no : Option Stmt)
  | loop (condition : Expr) (body : Stmt)

end Resolved

/-- An expression at a place, resolved. -/
def Expr.resolved (blocks : Blocks) : Expr → Resolved.Expr
  | .literal v => .literal v
  | .grouping inner => .grouping (inner.resolved blocks)
  | .unary operator operand => .unary operator (operand.resolved blocks)
  | .binary left operator right => .binary (left.resolved blocks) operator (right.resolved blocks)
  | .logical left operator right =>
    .logical (left.resolved blocks) operator (right.resolved blocks)
  | .reference name => .reference name (blocks.hops name.lexeme)
  | .assign name value => .assign name (blocks.hops name.lexeme) (value.resolved blocks)

mutual

/-- A statement at a place, resolved. -/
def Stmt.resolved (blocks : Blocks) : Stmt → Resolved.Stmt
  | .print value => .print (value.resolved blocks) (value.line?.getD 0)
  | .expression e => .expression (e.resolved blocks)
  | .var name none => .var name none
  | .var name (some init) => .var name (some (init.resolved blocks))
  | .block body => .block (Stmt.allResolved ([] :: blocks) body)
  | .branch condition yes none => .branch (condition.resolved blocks) (yes.resolved blocks) none
  | .branch condition yes (some no) =>
    .branch (condition.resolved blocks) (yes.resolved blocks) (some (no.resolved blocks))
  | .loop condition body => .loop (condition.resolved blocks) (body.resolved blocks)
termination_by structural s => s

/-- Statements one after the other, resolved. -/
def Stmt.allResolved (blocks : Blocks) : List Stmt → List Resolved.Stmt
  | [] => []
  | s :: rest => s.resolved blocks :: Stmt.allResolved (blocks.declare s.varNames) rest
termination_by structural body => body

end

/-! ### Running resolved programs -/

namespace Resolved

/-- Reads the variable that is so many scopes up. -/
def lookUp (here : ScopeId) (name : Token) (hops : Nat) : EStateM RuntimeError Store Value :=
  fun store =>
    match store.climb hops here with
    | none => .error (Store.undefined name) store
    | some home =>
      match store.getIn home name with
      | .ok v => .ok v store
      | .error e => .error e store

/-- Gives the variable that is so many scopes up a value. -/
def overwrite (here : ScopeId) (name : Token) (hops : Nat) (v : Value) :
    EStateM RuntimeError Store Value := fun store =>
  match store.climb hops here with
  | none => .error (Store.undefined name) store
  | some home =>
    match store.assignIn home name v with
    | .ok after => .ok v after
    | .error e => .error e store

/-- The value of a resolved expression. -/
def eval (here : ScopeId) : Expr → EStateM RuntimeError Store Value
  | .literal v => pure v
  | .grouping inner => eval here inner
  | .unary operator operand => do
    let v ← eval here operand
    ofExcept (applyUnary operator v)
  | .binary left operator right => do
    let a ← eval here left
    let b ← eval here right
    ofExcept (applyBinary operator a b)
  | .logical left operator right => do
    let a ← eval here left
    if decides operator a then return a else eval here right
  | .reference name hops => lookUp here name hops
  | .assign name hops value => do
    let v ← eval here value
    overwrite here name hops v

/-- Evaluates a resolved expression in the current scope. -/
def evaluate {ω : Type} (e : Expr) : ExecOn ω Value := Exec.evaluating fun here => eval here e

open Exec

variable {ω : Type} [Output ω]

mutual

/-- Executes a resolved statement. -/
def execute (rounds : Nat) : Stmt → ExecOn ω Unit
  | .print value line => do
    let v ← evaluate value
    printLine v line
  | .expression e => discard (evaluate e)
  | .var name none => define name.lexeme .nil
  | .var name (some init) => do
    let v ← evaluate init
    define name.lexeme v
  | .block body => withinNew (executeAll rounds body)
  | .branch condition yes none => do
    if (← evaluate condition).truthy then execute rounds yes else return ()
  | .branch condition yes (some no) => do
    if (← evaluate condition).truthy then execute rounds yes else execute rounds no
  | .loop condition body => whileTrue (evaluate condition) (execute rounds body) rounds
termination_by structural s => s

/-- Executes resolved statements in order. -/
def executeAll (rounds : Nat) : List Stmt → ExecOn ω Unit
  | [] => return ()
  | s :: rest => do
    execute rounds s
    executeAll rounds rest
termination_by structural body => body

end

/-- Runs a resolved program and flushes the output. -/
def interpret (rounds : Nat) (program : List Stmt) : ExecOn ω Unit :=
  flushing (executeAll rounds program)

end Resolved

end Scriptlet
