import Scriptlet.Proofs.Refinement
import Scriptlet.Proofs.Sessions

/-!
# Sessions on a stack of maps

A stack of maps can be given sources just as a machine can: each is scanned and parsed, and if it has
no errors its program runs on the maps that the sources before it have left.  Between two sources
there is only one map, with the global variables.  Whether a source is rejected, fails half-way down
some blocks or ends well, a machine comes to the same outcome, output and global variables.

* `Stack.interpret`, `Stack.run`, `Stack.session` : programs, sources and sessions on a stack;
* `Stack.Respected.interpret` : a program does the same on stacks that it cannot tell apart;
* `interpret_mirrors`, `run_mirrors` : a program and a source, on a chain of scopes and on the maps
  that the scopes hold;
* `session_refines_stack` : **a session on a machine comes to what it comes to on a stack of maps**,
  source by source.
-/

namespace Scriptlet

namespace Stack

variable {ω : Type}

/-- A stack with an empty map for the global variables. -/
def new (sink : ω) : Stack ω := ⟨[[]], sink⟩

/-- The run of a source on a stack. -/
structure Run (ω : Type) where
  /-- How it ended. -/
  outcome : Outcome
  /-- The stack afterwards. -/
  stack : Stack ω

variable [Output ω]

/-- Passes on the output. -/
def flush : EStateM Stop (Stack ω) Unit := fun stack =>
  match Output.flush stack.sink with
  | (none, sink) => .ok () { stack with sink }
  | (some reason, sink) => .error (.error ⟨.outputFailed reason, 0⟩) { stack with sink }

/-- Executes a whole program and then flushes the output, also if the program failed; its own
error is then the one that counts. -/
def interpret (rounds : Nat) (program : List Stmt) : EStateM Stop (Stack ω) Unit := fun stack =>
  match executeAll rounds program stack with
  | .ok () stack => flush stack
  | .error (.error e) stack => .error (.error e) (endState flush stack)
  | .error .outOfRounds stack => .error .outOfRounds stack

/-- Runs a source on a stack. -/
def run (rounds : Nat) (stack : Stack ω) (source : String) : Run ω :=
  match check source with
  | .endless => ⟨.unfinished, stack⟩
  | .rejected errors => ⟨.rejected errors, stack⟩
  | .program statements =>
    match interpret rounds statements stack with
    | .ok () stack => ⟨.ok, stack⟩
    | .error (.error e) stack => ⟨.failed e, stack⟩
    | .error .outOfRounds stack => ⟨.unfinished, stack⟩

/-- The runs of sources on one stack, one after the other. -/
def session (rounds : Nat) (stack : Stack ω) : List String → List (Run ω)
  | [] => []
  | source :: rest =>
    stack.run rounds source :: session rounds (stack.run rounds source).stack rest

/-! ### Programs and stacks that they cannot tell apart -/

theorem flush_relates {maps : Nat → Frames → Frames → Prop} {depth : Nat} :
    Mirrors (Relates maps depth) (flush : EStateM Stop (Stack ω) Unit) flush := by
  rintro ⟨a, s⟩ ⟨b, _⟩ ⟨hmaps, rfl⟩
  simp only [flush]
  rcases Output.flush s with ⟨_ | reason, after⟩
  · exact .ok ⟨hmaps, rfl⟩
  · exact .error ⟨hmaps, rfl⟩

namespace Respected

variable {maps : Nat → Frames → Frames → Prop} {used : String → Prop}
  {declared : Nat → String → Prop}

/-- A program does the same on related stacks, and leaves related ones. -/
theorem interpret (hR : Respected maps used declared) (rounds : Nat) {program : List Stmt}
    {depth : Nat} (hused : ∀ name ∈ Stmt.allMentions program, used name)
    (hdeclared : ∀ s ∈ program, ∀ name ∈ s.declared, declared depth name) :
    Mirrors (Relates maps depth) (Stack.interpret rounds program : EStateM Stop (Stack ω) Unit)
      (Stack.interpret rounds program) := by
  intro s t h
  have hbody := hR.executeAll rounds program depth hused hdeclared s t h
  unfold Stack.interpret
  generalize Stack.executeAll rounds program s = r, Stack.executeAll rounds program t = r' at hbody
  cases hbody with
  | ok h' => exact flush_relates _ _ h'
  | @error stop _ _ h' =>
    cases stop with
    | outOfRounds => exact .error h'
    | error e => exact .error (flush_relates _ _ h').endState

end Respected

end Stack

section Mirrors

variable {ω : Type} [Output ω] {base : Store} {here : ScopeId} {ids : List ScopeId}
  {m : Machine ω} {t : Stack ω}

theorem flush_shows :
    Mirrors (Machine.Shows base here ids) (Exec.flush : ExecOn ω Unit) Stack.flush := by
  rintro ⟨store, _, sink⟩ t ⟨rfl, hstore, rfl⟩
  simp only [Exec.flush, Stack.flush]
  rcases Output.flush t.sink with ⟨_ | reason, after⟩
  · exact .ok ⟨rfl, hstore, rfl⟩
  · exact .error ⟨rfl, hstore, rfl⟩

/-- **A program does the same on a chain of scopes as on a stack of maps**, and so does the flush at
its end. -/
theorem interpret_mirrors (hl : base.Linked here ids) (rounds : Nat) (program : List Stmt) :
    Mirrors (Machine.Shows base here ids) (interpret rounds program : ExecOn ω Unit)
      (Stack.interpret rounds program) := by
  intro m t h
  have hbody := executeAll_mirrors rounds program base here ids hl m t h
  rw [interpret_eq]
  unfold Stack.interpret
  generalize hm : executeAll rounds program m = r, Stack.executeAll rounds program t = r' at hbody
  cases hbody with
  | ok h' =>
    rw [Exec.flushing_of_ok hm]
    exact flush_shows _ _ h'
  | @error stop _ _ h' =>
    cases stop with
    | outOfRounds =>
      rw [Exec.flushing_of_outOfRounds hm]
      exact .error h'
    | error e =>
      rw [Exec.flushing_of_error hm]
      exact .error (flush_shows _ _ h').endState

/-- A source comes to the same outcome, and leaves the scopes with the maps that it leaves. -/
theorem run_mirrors (hl : base.Linked here ids) (h : m.Shows base here ids t) (rounds : Nat)
    (source : String) :
    (m.run rounds source).outcome = (t.run rounds source).outcome ∧
      (m.run rounds source).machine.Shows base here ids (t.run rounds source).stack := by
  cases hcheck : check source with
  | endless =>
    simp only [Machine.run, Stack.run, hcheck]
    exact ⟨trivial, h⟩
  | rejected errors =>
    simp only [Machine.run, Stack.run, hcheck]
    exact ⟨trivial, h⟩
  | program statements =>
    have hprogram := interpret_mirrors hl rounds statements m t h
    rw [run_of_check hcheck]
    simp only [Stack.run, hcheck]
    generalize interpret rounds statements m = r, Stack.interpret rounds statements t = r'
      at hprogram
    cases hprogram with
    | ok h' => exact ⟨rfl, h'⟩
    | @error stop _ _ h' => cases stop <;> exact ⟨rfl, h'⟩

theorem session_mirrors (hl : base.Linked here ids) (rounds : Nat) (sources : List String) :
    ∀ {m : Machine ω} {t : Stack ω}, m.Shows base here ids t →
      List.Forall₂ (fun step reference => step.2.outcome = reference.outcome ∧
          step.2.machine.Shows base here ids reference.stack)
        (session rounds m sources) (t.session rounds sources) := by
  induction sources with
  | nil => exact fun _ => .nil
  | cons source rest ih =>
    intro m t h
    -- the next source starts where this one leaves the machine and the stack
    have hrun := run_mirrors hl h rounds source
    exact .cons hrun (ih hrun.2)

end Mirrors

/-- A machine with nothing but a global scope shows a stack of one map. -/
theorem Machine.Shows.exists_globals {ω : Type} {base : Store} {here : ScopeId} {m : Machine ω}
    {t : Stack ω} (h : m.Shows base here [here] t) :
    ∃ globals, m.store.bindings? m.here = some globals ∧ t.frames = [globals] := by
  have hon := h.store.on
  have hlength : t.frames.length = 1 := by simpa using congrArg List.length hon.symm
  obtain ⟨globals, hglobals⟩ := List.length_eq_one_iff.1 hlength
  rw [hglobals] at hon ⊢
  rw [h.here]
  exact ⟨globals, (List.cons.inj hon).1, rfl⟩

/-- **A session on a machine comes to what it comes to on a stack of maps.**  However each of the
sources ends, its outcome, with all errors, is the same; so is the sink with all its output; and the
global scope holds the one map of the stack. -/
theorem session_refines_stack {ω : Type} [Output ω] (rounds : Nat) (sink : ω)
    (sources : List String) :
    List.Forall₂ (fun step reference =>
        step.2.outcome = reference.outcome ∧
        step.2.machine.sink = reference.stack.sink ∧
        ∃ globals, step.2.machine.store.bindings? step.2.machine.here = some globals ∧
          reference.stack.frames = [globals])
      (session rounds (Machine.new sink) sources) ((Stack.new sink).session rounds sources) := by
  have hl : (Machine.new sink).store.Linked 0 [0] := .root Nat.zero_lt_one rfl
  have hshows : (Machine.new sink).Shows (Machine.new sink).store 0 [0] (Stack.new sink) :=
    ⟨rfl, ⟨rfl, fun _ => rfl, fun _ _ => rfl, rfl⟩, rfl⟩
  refine (session_mirrors hl rounds sources hshows).imp ?_
  rintro step reference ⟨houtcome, h⟩
  exact ⟨houtcome, h.sink, h.exists_globals⟩

end Scriptlet
