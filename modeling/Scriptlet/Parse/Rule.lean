import Scriptlet.SyntaxError

/-!
# Grammar rules

The rules of the grammar are written in terms of a few steps: to look at the next token, to take it,
to complain, and to recover from a complaint.  `Reader` lists them, and a rule of the grammar is
given for every way to read tokens that has these steps.

The parser reads tokens from a cursor.  A rule may finish with a value; it may get stuck, having
reported what it stumbled over, and leave the cursor there; or it may turn out to be endless.  All
three show in `Reading`, and the errors reported on the way are part of it, so that a rule does not
depend on what was reported before.

A stream of tokens need not hold an end of the source.  At the end of one that does not, its last
token is seen again and again without being used up.  That is what makes a rule endless: it takes
an opening token for a new one every time.
-/

namespace Scriptlet

/-- What the grammar asks of a way to read tokens. -/
class Reader (m : Type → Type) extends Monad m where
  /-- Never comes to an end. -/
  endless {α : Type} : m α
  /-- Reports an error and goes on. -/
  report : SyntaxError → m Unit
  /-- Complains about the next token and gets stuck there. -/
  fail {α : Type} : Complaint → m α
  /-- The kind of the next token. -/
  peek : m Kind
  /-- Whether nothing is left, or the next token is of a kind to stop at. -/
  stopped : (Kind → Bool) → m Bool
  /-- Takes the next token. -/
  advance : m Token
  /-- Reads a rule; if it gets stuck, drops what it was reading and moves to the next boundary. -/
  recover {α : Type} : m α → m (Option α)

/-! ### Cursors -/

/-- A place in a stream of tokens. -/
structure Cursor where
  /-- The tokens from here on. -/
  rest : List Token
  /-- The last token of the whole stream. -/
  last : Token
deriving DecidableEq

namespace Cursor

/-- The token at the cursor; behind the stream, its last token. -/
def peek (c : Cursor) : Token :=
  match c.rest with
  | [] => c.last
  | t :: _ => t

/-- Whether nothing is left to be used up. -/
def atEnd (c : Cursor) : Bool :=
  match c.rest with
  | [] => true
  | t :: _ => t.kind.isEnd

/-- Uses up a token, if one is left. -/
def next (c : Cursor) : Cursor := if c.atEnd then c else { c with rest := c.rest.tail }

end Cursor

/-! ### Reading from a cursor -/

/-- How the reading of a rule comes out. -/
inductive Reading (α : Type) where
  /-- A value, with the cursor behind it. -/
  | done (value : α) (cursor : Cursor) (errors : List SyntaxError)
  /-- The rule cannot go on from the cursor. -/
  | stuck (cursor : Cursor) (errors : List SyntaxError)
  /-- The rule goes on without using up tokens. -/
  | endless

namespace Reading

variable {α β : Type}

/-- The same reading with errors put before its own. -/
def after (errors : List SyntaxError) : Reading α → Reading α
  | done value cursor more => done value cursor (errors ++ more)
  | stuck cursor more => stuck cursor (errors ++ more)
  | endless => endless

end Reading

/-- A rule that reads from a cursor. -/
def Rule (α : Type) := Cursor → Reading α

namespace Rule

variable {α β : Type}

/-- Reads nothing. -/
protected def pure (value : α) : Rule α := fun c => .done value c []

/-- Reads one rule and then the one that its value asks for. -/
protected def bind (rule : Rule α) (next : α → Rule β) : Rule β := fun c =>
  match rule c with
  | .done value c errors => (next value c).after errors
  | .stuck c errors => .stuck c errors
  | .endless => .endless

instance : Monad Rule where
  pure := Rule.pure
  bind := Rule.bind

/-- Keywords at which a new statement is taken to start. -/
def startsStatement : Kind → Bool
  | .keyword .class | .keyword .fun | .keyword .var | .keyword .for
  | .keyword .if | .keyword .while | .keyword .print | .keyword .return => true
  | _ => false

/-- The first of the given tokens at which parsing can take up again: the end of the source, a
token after a semicolon, or one that starts a statement.  `previous` is the token before them. -/
def boundary (previous : Token) : List Token → List Token
  | [] => []
  | t :: rest =>
    if t.kind.isEnd || previous.kind.isSymbol .semicolon || startsStatement t.kind then t :: rest
    else boundary t rest

/-- Moves on past at least one token, to the next boundary. -/
def resume (c : Cursor) : Cursor :=
  match c.rest with
  | [] => c
  | t :: rest => if t.kind.isEnd then c else { c with rest := boundary t rest }

-- where nothing else says how to read, a rule reads from a cursor
@[default_instance]
instance : Reader Rule where
  endless := fun _ => .endless
  report e := fun c => .done () c [e]
  fail complaint := fun c => .stuck c [SyntaxError.atToken c.peek complaint]
  peek := fun c => .done c.peek.kind c []
  stopped stop := fun c => .done (c.atEnd || stop c.peek.kind) c []
  advance := fun c => .done c.peek c.next []
  recover rule := fun c =>
    match rule c with
    | .done value c errors => .done (some value) c errors
    | .stuck c errors => .done none (resume c) errors
    | .endless => .endless

/-! ### Rules for one token -/

export Reader (endless report fail peek stopped advance recover)

variable {m : Type → Type} [Reader m]

/-- Takes the next token, which has to be of a certain kind. -/
def expect (wanted : Kind → Bool) (complaint : Complaint) : m Token := do
  if wanted (← peek) then advance else fail complaint

/-- Takes the next token if it is of a certain kind, and tells whether it was. -/
def accept (wanted : Kind → Bool) : m Bool := do
  if wanted (← peek) then
    discard advance
    return true
  else
    return false

end Rule

end Scriptlet
