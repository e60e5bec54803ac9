import Scriptlet.Proofs.Sessions

/-!
# Layout makes no difference

Blanks, newlines and comments leave no trace but the lines of the tokens around them.  Since lines
are only shown in errors, two streams of tokens that differ in nothing else are parsed and run
alike, whatever goes wrong on the way.

* `noLine` : the same line for everything, so that `mapLine noLine` forgets lines;
* `Run.SameButLines` : two runs that differ in lines only;
* `layout_makes_no_difference` : **streams that differ in lines only have the same statements, the
  same errors and the same runs, but for lines; and so have sources with the same tokens.**
-/

namespace Scriptlet

/-- The same line for everything. -/
def noLine (_ : Nat) : Nat := 0

/-- Two runs differ in lines only: in those of the statements and of the errors that are reported.
Variables, output and all else about the machine are the same. -/
structure Run.SameButLines {ω : Type} (a b : Run ω) : Prop where
  /-- The statements are the same. -/
  program : a.program.map (Stmt.mapLines noLine) = b.program.map (Stmt.mapLines noLine)
  /-- They end alike, and if with errors, then with the same ones. -/
  outcome : a.outcome.mapLine noLine = b.outcome.mapLine noLine
  /-- They leave the same machine. -/
  machine : a.machine = b.machine

variable {ω : Type} {ts us : List Token}

theorem parse?_of_sameButLines (h : ts.map (Token.mapLine noLine) = us.map (Token.mapLine noLine)) :
    (parse? ts).map (Parse.mapLines noLine) = (parse? us).map (Parse.mapLines noLine) := by
  rw [← parse?_mapLines, ← parse?_mapLines, h]

/-- Results that differ in lines only are those of runs that do. -/
theorem ofResult_sameButLines {p q : List Stmt} {r r' : EStateM.Result Stop (Machine ω) Unit}
    (hprogram : p.map (Stmt.mapLines noLine) = q.map (Stmt.mapLines noLine))
    (h : through id (Stop.mapLine noLine) r = through id (Stop.mapLine noLine) r') :
    (Run.ofResult p r).SameButLines (Run.ofResult q r') := by
  have hends := congrArg (Run.ofResult []) h
  rw [Run.ofResult_through noLine [] p, Run.ofResult_through noLine [] q] at hends
  obtain ⟨-, houtcome, hmachine⟩ := Run.mk.inj hends
  exact ⟨by rw [Run.program_ofResult, Run.program_ofResult, hprogram], houtcome, hmachine⟩

variable [Output ω]

/-- **Statements that differ in lines only run alike.** -/
theorem interpret_sameButLines {p q : List Stmt}
    (h : p.map (Stmt.mapLines noLine) = q.map (Stmt.mapLines noLine)) (rounds : Nat)
    (m : Machine ω) :
    (Run.ofResult p (interpret rounds p m)).SameButLines
      (Run.ofResult q (interpret rounds q m)) := by
  refine ofResult_sameButLines h ?_
  rw [← interpret_mapLines rfl rounds p m, ← interpret_mapLines rfl rounds q m, h]

/-- **Sources with the same tokens but for lines run alike.** -/
theorem run_sameButLines {a b : String} (ha : (scan a).errors = []) (hb : (scan b).errors = [])
    (h : (scan a).tokens.map (Token.mapLine noLine) = (scan b).tokens.map (Token.mapLine noLine))
    (rounds : Nat) (m : Machine ω) : (m.run rounds a).SameButLines (m.run rounds b) := by
  obtain ⟨p, hp⟩ := exists_parse_scan a
  obtain ⟨q, hq⟩ := exists_parse_scan b
  have hparse := parse?_of_sameButLines h
  rw [hp, hq] at hparse
  have hstatements := congrArg Parse.statements (Option.some.inj hparse)
  have herrors : p.errors.map (SyntaxError.mapLine noLine) = q.errors.map (.mapLine noLine) :=
    congrArg Parse.errors (Option.some.inj hparse)
  obtain ⟨statements, errors⟩ := p
  obtain ⟨statements', errors'⟩ := q
  -- either both are rejected, with the same errors, or neither is
  cases errors with
  | nil =>
    obtain rfl : errors' = [] := List.map_eq_nil_iff.1 herrors.symm
    rw [run_of_check (check_eq_program_iff.2 ⟨ha, hp⟩),
      run_of_check (check_eq_program_iff.2 ⟨hb, hq⟩)]
    exact interpret_sameButLines hstatements rounds m
  | cons e rest =>
    cases errors' with
    | nil => cases herrors
    | cons e' rest' =>
      have hrejected : ∀ {source : String} {program : List Stmt} {e : SyntaxError}
          {rest : List SyntaxError}, (scan source).errors = [] →
          parse? (scan source).tokens = some ⟨program, e :: rest⟩ →
          m.run rounds source = ⟨[], .rejected (e :: rest), m⟩ := by
        intro source program e rest hscan hparse
        simp only [Machine.run, check, hparse, hscan, List.nil_append]
      rw [hrejected ha hp, hrejected hb hq]
      exact ⟨rfl, congrArg Outcome.rejected herrors, rfl⟩

/-- **Layout makes no difference.**  Let two streams of tokens differ in lines only.  Either parsing
has an answer for both or for neither; the statements and the errors are the same but for lines; and
from the same machine the statements run alike: with the same output and the same variables, to the
end, to the same error but for its line, or on and on.  Hence sources without errors in scanning
whose tokens have the same kinds and lexemes run alike. -/
theorem layout_makes_no_difference :
    (∀ ts us : List Token, ts.map (Token.mapLine noLine) = us.map (Token.mapLine noLine) →
      (parse? ts).map (Parse.mapLines noLine) = (parse? us).map (Parse.mapLines noLine) ∧
      ∀ p q, parse? ts = some p → parse? us = some q → ∀ rounds (m : Machine ω),
        (Run.ofResult p.statements (interpret rounds p.statements m)).SameButLines
          (Run.ofResult q.statements (interpret rounds q.statements m))) ∧
    ∀ a b : String, (scan a).errors = [] → (scan b).errors = [] →
      (scan a).tokens.map (fun t => (t.kind, t.lexeme)) =
        (scan b).tokens.map (fun t => (t.kind, t.lexeme)) →
      ∀ rounds (m : Machine ω), (m.run rounds a).SameButLines (m.run rounds b) := by
  constructor
  · intro ts us h
    have hparse := parse?_of_sameButLines h
    refine ⟨hparse, fun p q hp hq rounds m => ?_⟩
    rw [hp, hq] at hparse
    exact interpret_sameButLines (congrArg Parse.statements (Option.some.inj hparse)) rounds m
  · intro a b ha hb h rounds m
    have hforget : ∀ ts : List Token, ts.map (Token.mapLine noLine) =
        (ts.map fun t => (t.kind, t.lexeme)).map fun token => ⟨token.1, token.2, 0⟩ := by
      intro ts
      rw [List.map_map]
      rfl
    exact run_sameButLines ha hb (by rw [hforget, hforget, h]) rounds m

/-- A statement that fails, once on one line and once over three lines with a comment: only the line
of the failure differs. -/
theorem layout_of_failure :
    let m := Machine.new ({} : Sink)
    (m.run 1 "print -nil;").outcome = .failed ⟨.operandNotNumber, 1⟩ ∧
    (m.run 1 "print // nothing\n\n - nil ;").outcome = .failed ⟨.operandNotNumber, 3⟩ ∧
    (m.run 1 "print -nil;").SameButLines (m.run 1 "print // nothing\n\n - nil ;") := by
  refine ⟨by decide +kernel, by decide +kernel, ?_⟩
  exact layout_makes_no_difference.2 _ _ (by decide +kernel) (by decide +kernel)
    (by decide +kernel) 1 _

end Scriptlet
