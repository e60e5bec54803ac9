import Scriptlet.Value

/-!
# Where output goes

Programs print values to something that takes them, and flush it.  All that is known about it is
that it answers: it may fail at any time and for any reason, and how it answers may depend on all
that has happened to it before.  So an output is any type of states with these operations.

A sink is an output of a simple kind.  It takes bytes until its room, if that is limited, is used
up.  A write that does not fit leaves the part that fits in the sink and fails.
-/

namespace Scriptlet

/-- The line that printing a value writes. -/
def Value.printed (v : Value) : ByteArray := (v.text ++ "\n").toUTF8

/-- The states of something that output goes to, and how it answers in each of them. -/
class Output (ω : Type) where
  /-- Prints the text of a value and a newline, in whatever pieces; the reason, if that fails. -/
  print : Value → ω → Option String × ω
  /-- Passes on what was printed; the reason, if that fails. -/
  flush : ω → Option String × ω
  /-- All bytes that it has taken. -/
  written : ω → ByteArray

/-- Why output could not be written. -/
inductive SinkFailure where
  /-- The sink refuses more bytes. -/
  | full
  /-- The sink takes no more bytes and does not say why. -/
  | stalled
  /-- What was written cannot be passed on. -/
  | flush
deriving Repr, DecidableEq

/-- The wording of a failure. -/
def SinkFailure.text : SinkFailure → String
  | full => "sink full"
  | stalled => "failed to write whole buffer"
  | flush => "flush failed"

/-- A place that output is written to. -/
structure Sink where
  /-- How many more bytes it takes, if it has a limit. -/
  room : Option Nat := none
  /-- How it fails once its room is used up. -/
  overflow : SinkFailure := .full
  /-- Whether each flush fails. -/
  flushFails : Bool := false
  /-- What it has taken. -/
  written : ByteArray := .empty
  /-- How often it was flushed. -/
  flushes : Nat := 0

namespace Sink

/-- Writes bytes, as many as there is room for. -/
def write (sink : Sink) (bytes : ByteArray) : Option SinkFailure × Sink :=
  match sink.room with
  | none => (none, { sink with written := sink.written ++ bytes })
  | some room =>
    ( if bytes.size ≤ room then none else some sink.overflow,
      { sink with
        room := some (room - bytes.size)
        written := sink.written ++ bytes.extract 0 room } )

/-- Passes on what was written. -/
def flush (sink : Sink) : Option SinkFailure × Sink :=
  ( if sink.flushFails then some .flush else none, { sink with flushes := sink.flushes + 1 } )

instance : Output Sink where
  print v sink := (sink.write v.printed).map (Option.map SinkFailure.text) id
  flush sink := sink.flush.map (Option.map SinkFailure.text) id
  written := written

theorem print_eq (v : Value) (sink : Sink) :
    Output.print v sink = (sink.write v.printed).map (Option.map SinkFailure.text) id := rfl

theorem flush_eq (sink : Sink) :
    Output.flush sink = sink.flush.map (Option.map SinkFailure.text) id := rfl

end Sink

end Scriptlet
