import Scriptlet.Token
import Scriptlet.RuntimeError

/-!
# Scopes

A scope binds names to values and may have a parent.  All scopes live in a store and are known by
their place in it, so that two holders of one scope see each other's changes.  A parent is always
older than its children.

A name is looked up along the **chain** of a scope: the scope itself, its parent, and so on.  The
first scope on the chain that binds the name is where it is read and where it is assigned; only a
declaration writes into the scope at hand.
-/

namespace Scriptlet

/-- Names with their values; each name occurs once. -/
abbrev Bindings := List (String × Value)

namespace Bindings

/-- The value of a name. -/
def find? (bindings : Bindings) (name : String) : Option Value := bindings.lookup name

/-- The bindings with a value for a name, be it bound before or not. -/
def put (name : String) (value : Value) : Bindings → Bindings
  | [] => [(name, value)]
  | (other, old) :: rest =>
    if other = name then (other, value) :: rest else (other, old) :: put name value rest

end Bindings

/-- The place of a scope in its store. -/
abbrev ScopeId := Nat

/-- One scope. -/
structure Scope where
  /-- What it binds itself. -/
  bindings : Bindings := []
  /-- Where names that it does not bind are looked up. -/
  parent : Option ScopeId := none

/-- All scopes, the oldest first. -/
structure Store where
  /-- The scopes by their place. -/
  scopes : Array Scope := #[]

namespace Store

/-- The value that a scope itself binds to a name. -/
def bound? (store : Store) (id : ScopeId) (name : String) : Option Value :=
  store.scopes[id]?.bind fun scope => scope.bindings.find? name

/-- The parent of a scope. -/
def parent? (store : Store) (id : ScopeId) : Option ScopeId :=
  store.scopes[id]?.bind Scope.parent

/-- The place that the next scope will have. -/
def nextId (store : Store) : ScopeId := store.scopes.size

/-- Adds an empty scope. -/
def add (store : Store) (parent : Option ScopeId) : Store :=
  ⟨store.scopes.push { parent }⟩

/-- Removes the youngest scope. -/
def drop (store : Store) : Store := ⟨store.scopes.pop⟩

/-- The first scopes of a chain, at most as many as the bound says. -/
def chainUpTo (store : Store) : Nat → ScopeId → List ScopeId
  | 0, _ => []
  | bound + 1, id =>
    match store.parent? id with
    | some parent => id :: chainUpTo store bound parent
    | none => [id]

/-- The chain of a scope.  No chain is longer than the store. -/
def chain (store : Store) (id : ScopeId) : List ScopeId := store.chainUpTo store.scopes.size id

/-- The scope in which a name is found. -/
def resolve? (store : Store) (id : ScopeId) (name : String) : Option ScopeId :=
  (store.chain id).find? fun home => (store.bound? home name).isSome

/-- Binds a name in a scope. -/
def define (store : Store) (id : ScopeId) (name : String) (value : Value) : Store :=
  ⟨store.scopes.modify id fun scope => { scope with bindings := scope.bindings.put name value }⟩

/-- The error of a variable that is not found. -/
def undefined (name : Token) : RuntimeError := ⟨.undefinedVariable name.lexeme, name.line⟩

/-- The value of a variable, seen from a scope. -/
def get (store : Store) (id : ScopeId) (name : Token) : Except RuntimeError Value :=
  match (store.resolve? id name.lexeme).bind (store.bound? · name.lexeme) with
  | some value => .ok value
  | none => .error (undefined name)

/-- Gives a variable a new value, seen from a scope, in the scope where it is found. -/
def assign (store : Store) (id : ScopeId) (name : Token) (value : Value) :
    Except RuntimeError Store :=
  match store.resolve? id name.lexeme with
  | some home => .ok (store.define home name.lexeme value)
  | none => .error (undefined name)

end Store

end Scriptlet
