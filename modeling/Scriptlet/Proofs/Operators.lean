import Scriptlet.Proofs.Blame
import Scriptlet.Proofs.WellKinded

/-!
# Every operator of a parsed program has a meaning

Evaluation acts by the kind of an operator's token, and a kind that is no operator gives `nil`.
Here this last case is left open: `evalOr other` gives whatever `other` says there, which may also
be an error that ends the run.  On the trees that parsing builds it is never asked, so all these
evaluators run a parsed program in the same way.

* `evalOr` : evaluation with the open case, and `evalOr_nil` : the evaluator itself is one of these;
* `executeWith` : execution with another evaluator, and `executeWith_congr` : only the expressions
  of a statement count;
* `parsed_operators_have_meaning` : **parsed trees are well-kinded, and the open case is never
  reached when they run.**
-/

namespace Scriptlet

/-! ### Operators with an open case -/

section EvalOr

variable (other : Token → Except RuntimeError Value)

/-- An operator before a value; one that is no operator gives what `other` says. -/
def applyUnaryOr (operator : Token) (v : Value) : Except RuntimeError Value :=
  match operator.kind with
  | .symbol .minus =>
    match v with
    | .number x => .ok (.number (-x))
    | _ => .error ⟨.operandNotNumber, operator.line⟩
  | .symbol .bang => .ok (.boolean !v.truthy)
  | _ => other operator

/-- An operator between two numbers; one that is no operator gives what `other` says. -/
def applyNumericOr (operator : Token) (x y : Float) : Except RuntimeError Value :=
  match operator.kind with
  | .symbol .minus => .ok (.number (x - y))
  | .symbol .slash => .ok (.number (x / y))
  | .symbol .star => .ok (.number (x * y))
  | .symbol .greater => .ok (.boolean (x > y))
  | .symbol .greaterEqual => .ok (.boolean (x ≥ y))
  | .symbol .less => .ok (.boolean (x < y))
  | .symbol .lessEqual => .ok (.boolean (x ≤ y))
  | _ => other operator

/-- An operator between two values; one that is no operator gives what `other` says, if the values
are numbers. -/
def applyBinaryOr (operator : Token) (a b : Value) : Except RuntimeError Value :=
  match operator.kind with
  | .symbol .equalEqual => .ok (.boolean (a.equals b))
  | .symbol .bangEqual => .ok (.boolean !a.equals b)
  | .symbol .plus =>
    match a, b with
    | .number x, .number y => .ok (.number (x + y))
    | .string s, .string t => .ok (.string (s ++ t))
    | _, _ => .error ⟨.operandsNotAddable, operator.line⟩
  | _ =>
    match a, b with
    | .number x, .number y => applyNumericOr other operator x y
    | _, _ => .error ⟨.operandNotNumber, operator.line⟩

/-- The value of an expression in a scope, with the open case. -/
def evalOr (here : ScopeId) : Expr → EStateM RuntimeError Store Value
  | .literal v => pure v
  | .grouping inner => evalOr here inner
  | .unary operator operand => do
    let v ← evalOr here operand
    ofExcept (applyUnaryOr other operator v)
  | .binary left operator right => do
    let a ← evalOr here left
    let b ← evalOr here right
    ofExcept (applyBinaryOr other operator a b)
  | .logical left operator right => do
    let a ← evalOr here left
    if decides operator a then return a else evalOr here right
  | .reference name => lookUp here name
  | .assign name value => evalOr here value >>= overwrite here name

theorem applyUnaryOr_of_isUnary {operator : Token} (h : operator.kind.isUnary = true) (v : Value) :
    applyUnaryOr other operator v = applyUnary operator v := by
  obtain ⟨kind, lexeme, line⟩ := operator
  cases kind with
  | symbol s => cases s <;> first | rfl | cases h
  | _ => cases h

theorem applyBinaryOr_of_isBinary {operator : Token} (h : operator.kind.isBinary = true)
    (a b : Value) : applyBinaryOr other operator a b = applyBinary operator a b := by
  obtain ⟨kind, lexeme, line⟩ := operator
  cases kind with
  | symbol s => cases s <;> first | (cases a <;> cases b <;> rfl) | cases h
  | _ => cases h

/-- On well-kinded expressions the open case does not count. -/
theorem evalOr_of_wellKinded (here : ScopeId) {e : Expr} (h : e.WellKinded) :
    evalOr other here e = eval here e := by
  induction e with
  | literal v => rfl
  | grouping inner ih => exact ih h
  | unary operator operand ih =>
    simp only [evalOr, eval, ih h.2, applyUnaryOr_of_isUnary other h.1]
  | binary left operator right ihl ihr =>
    simp only [evalOr, eval, ihl h.2.1, ihr h.2.2, applyBinaryOr_of_isBinary other h.1]
  | logical left operator right ihl ihr => simp only [evalOr, eval, ihl h.2.1, ihr h.2.2]
  | reference name => rw [evalOr, eval_reference]
  | assign name value ih => rw [evalOr, eval_assign, ih h.2]

end EvalOr

-- other trees do come to the open case
example : evalOr (fun t => .error ⟨.operandNotNumber, t.line⟩) 0
    (.unary ⟨.symbol .comma, ",", 7⟩ (.literal .nil)) {} = .error ⟨.operandNotNumber, 7⟩ {} := rfl

theorem applyUnaryOr_nil (operator : Token) (v : Value) :
    applyUnaryOr (fun _ => .ok .nil) operator v = applyUnary operator v := rfl

theorem applyBinaryOr_nil (operator : Token) (a b : Value) :
    applyBinaryOr (fun _ => .ok .nil) operator a b = applyBinary operator a b := by
  obtain ⟨kind, lexeme, line⟩ := operator
  cases kind with
  | symbol s => cases s <;> cases a <;> cases b <;> rfl
  | _ => cases a <;> cases b <;> rfl

/-- **With `nil` in the open case this is evaluation**, of any tree whatever. -/
theorem evalOr_nil (here : ScopeId) (e : Expr) :
    evalOr (fun _ => .ok .nil) here e = eval here e := by
  induction e with
  | literal v => rfl
  | grouping inner ih => exact ih
  | unary operator operand ih => simp only [evalOr, eval, ih, applyUnaryOr_nil]
  | binary left operator right ihl ihr => simp only [evalOr, eval, ihl, ihr, applyBinaryOr_nil]
  | logical left operator right ihl ihr => simp only [evalOr, eval, ihl, ihr]
  | reference name => rw [evalOr, eval_reference]
  | assign name value ih => rw [evalOr, eval_assign, ih]

/-! ### Execution with another evaluator -/

section ExecuteWith

open Exec

/-- What gives expressions their values in a scope. -/
abbrev Evaluator := ScopeId → Expr → EStateM RuntimeError Store Value

variable {ω : Type}

/-- Evaluates an expression in the current scope with a given evaluator. -/
def evaluateWith (evaluator : Evaluator) (e : Expr) : ExecOn ω Value :=
  evaluating fun here => evaluator here e

variable [Output ω]

mutual

/-- Executes a statement with a given evaluator. -/
def executeWith (evaluator : Evaluator) (rounds : Nat) : Stmt → ExecOn ω Unit
  | .print value => do
    let v ← evaluateWith evaluator value
    printLine v (value.line?.getD 0)
  | .expression e => discard (evaluateWith evaluator e)
  | .var name none => define name.lexeme .nil
  | .var name (some init) => do
    let v ← evaluateWith evaluator init
    define name.lexeme v
  | .block body => withinNew (executeAllWith evaluator rounds body)
  | .branch condition yes none => do
    if (← evaluateWith evaluator condition).truthy then executeWith evaluator rounds yes
    else return ()
  | .branch condition yes (some no) => do
    if (← evaluateWith evaluator condition).truthy then executeWith evaluator rounds yes
    else executeWith evaluator rounds no
  | .loop condition body =>
    whileTrue (evaluateWith evaluator condition) (executeWith evaluator rounds body) rounds
termination_by structural s => s

/-- Executes statements in order with a given evaluator. -/
def executeAllWith (evaluator : Evaluator) (rounds : Nat) : List Stmt → ExecOn ω Unit
  | [] => return ()
  | s :: rest => do
    executeWith evaluator rounds s
    executeAllWith evaluator rounds rest
termination_by structural body => body

end

variable {evaluator evaluator' : Evaluator}

mutual

/-- Two evaluators run a statement alike if they do so with its expressions. -/
theorem executeWith_congr (rounds : Nat) :
    ∀ s : Stmt, (∀ e ∈ s.exprs, ∀ here, evaluator here e = evaluator' here e) →
      (executeWith evaluator rounds s : ExecOn ω Unit) = executeWith evaluator' rounds s
  | .print value, h => by
    simp only [executeWith, evaluateWith, h value (by simp [Stmt.exprs])]
  | .expression e, h => by
    simp only [executeWith, evaluateWith, h e (by simp [Stmt.exprs])]
  | .var name none, _ => rfl
  | .var name (some init), h => by
    simp only [executeWith, evaluateWith, h init (by simp [Stmt.exprs])]
  | .block body, h => by
    rw [executeWith, executeWith, executeAllWith_congr rounds body h]
  | .branch condition yes none, h => by
    have hyes := executeWith_congr rounds yes fun e he => h e (by simp [Stmt.exprs, he])
    simp only [executeWith, evaluateWith, hyes, h condition (by simp [Stmt.exprs])]
  | .branch condition yes (some no), h => by
    have hyes := executeWith_congr rounds yes fun e he => h e (by simp [Stmt.exprs, he])
    have hno := executeWith_congr rounds no fun e he => h e (by simp [Stmt.exprs, he])
    simp only [executeWith, evaluateWith, hyes, hno, h condition (by simp [Stmt.exprs])]
  | .loop condition body, h => by
    have hbody := executeWith_congr rounds body fun e he => h e (by simp [Stmt.exprs, he])
    simp only [executeWith, evaluateWith, hbody, h condition (by simp [Stmt.exprs])]
termination_by structural s => s

theorem executeAllWith_congr (rounds : Nat) : ∀ body : List Stmt,
    (∀ e ∈ Stmt.allExprs body, ∀ here, evaluator here e = evaluator' here e) →
      (executeAllWith evaluator rounds body : ExecOn ω Unit) = executeAllWith evaluator' rounds body
  | [], _ => rfl
  | s :: rest, h => by
    have hs := executeWith_congr rounds s fun e he => h e (by simp [Stmt.allExprs, he])
    have hrest := executeAllWith_congr rounds rest fun e he => h e (by simp [Stmt.allExprs, he])
    rw [executeAllWith, executeAllWith, hs, hrest]
termination_by structural body => body

end

mutual

/-- With `eval` this is execution. -/
theorem executeWith_eval (rounds : Nat) :
    ∀ s : Stmt, (executeWith eval rounds s : ExecOn ω Unit) = execute rounds s
  | .print _ => rfl
  | .expression _ => rfl
  | .var _ none => rfl
  | .var _ (some _) => rfl
  | .block body => by rw [executeWith, execute, executeAllWith_eval rounds body]
  | .branch condition yes none => by
    rw [executeWith, execute, executeWith_eval rounds yes]
    rfl
  | .branch condition yes (some no) => by
    rw [executeWith, execute, executeWith_eval rounds yes, executeWith_eval rounds no]
    rfl
  | .loop condition body => by
    rw [executeWith, execute, executeWith_eval rounds body, repeatWhile_eq]
    rfl
termination_by structural s => s

theorem executeAllWith_eval (rounds : Nat) :
    ∀ body : List Stmt, (executeAllWith eval rounds body : ExecOn ω Unit) = executeAll rounds body
  | [] => rfl
  | s :: rest => by
    rw [executeAllWith, executeAll, executeWith_eval rounds s, executeAllWith_eval rounds rest]
termination_by structural body => body

end

end ExecuteWith

/-! ### Parsed programs -/

namespace Stmt

mutual

theorem WellKinded.exprs : ∀ {s : Stmt}, s.WellKinded → ∀ e ∈ s.exprs, e.WellKinded
  | .print _, h => by simpa [Stmt.exprs, Stmt.WellKinded] using h
  | .expression _, h => by simpa [Stmt.exprs, Stmt.WellKinded] using h
  | .var _ none, _ => by simp [Stmt.exprs]
  | .var _ (some _), h => by simpa [Stmt.exprs] using h.2
  | .block _, h => AllWellKinded.exprs h
  | .branch _ yes none, ⟨hcondition, _, hyes⟩ => by
    simpa [Stmt.exprs, hcondition] using WellKinded.exprs hyes
  | .branch _ yes (some no), ⟨hcondition, ⟨_, hyes⟩, _, hno⟩ => by
    rintro e he
    simp only [Stmt.exprs, List.mem_cons, List.mem_append] at he
    rcases he with rfl | he | he
    · exact hcondition
    · exact WellKinded.exprs hyes e he
    · exact WellKinded.exprs hno e he
  | .loop _ body, ⟨hcondition, _, hbody⟩ => by
    simpa [Stmt.exprs, hcondition] using WellKinded.exprs hbody
termination_by structural s => s

theorem AllWellKinded.exprs :
    ∀ {body : List Stmt}, AllWellKinded body → ∀ e ∈ Stmt.allExprs body, e.WellKinded
  | [], _ => by simp [Stmt.allExprs]
  | s :: rest, ⟨hs, hrest⟩ => by
    rintro e he
    rcases List.mem_append.1 he with he | he
    · exact WellKinded.exprs hs e he
    · exact AllWellKinded.exprs hrest e he
termination_by structural body => body

end

end Stmt

/-- **Every operator of a parsed program has a meaning.**  Whatever the tokens, with or without an
end of the source and with or without errors, the statements that parsing returns are well-kinded.
Execution gives `nil` in the open case, for any tree; but when a statement of a parsed program is
executed, in whatever state, the open case may be replaced by anything, also by an error that would
end the run, and nothing changes.  So it is never reached. -/
theorem parsed_operators_have_meaning {ω : Type} [Output ω] {tokens : List Token} {parsed : Parse}
    (h : parse? tokens = some parsed) :
    (∀ s ∈ parsed.statements, s.WellKinded) ∧
    (∀ rounds s,
      (executeWith (evalOr fun _ => .ok .nil) rounds s : ExecOn ω Unit) = execute rounds s) ∧
    ∀ s ∈ parsed.statements, ∀ other rounds,
      (executeWith (evalOr other) rounds s : ExecOn ω Unit) = execute rounds s := by
  have hkinds := parse?_wellKinded h
  refine ⟨hkinds, fun rounds s => ?_, fun s hs other rounds => ?_⟩
  · rw [← executeWith_eval]
    exact executeWith_congr rounds s fun e _ here => evalOr_nil here e
  · rw [← executeWith_eval]
    exact executeWith_congr rounds s fun e he here =>
      evalOr_of_wellKinded other here ((hkinds s hs).exprs e he)

/-! ### A stream with errors and without end -/

/-- The tokens of `(a) = -b; }`, on one line and with no end of the source behind them. -/
def misassigned : List Token :=
  let token (s : Symbol) : Token := ⟨.symbol s, s.text, 1⟩
  [token .leftParen, ⟨.identifier "a", "a", 1⟩, token .rightParen, token .equal, token .minus,
    ⟨.identifier "b", "b", 1⟩, token .semicolon, token .rightBrace]

/-- Two errors are reported, and the value that is left of the assignment is well-kinded. -/
theorem misassigned_has_meaning :
    ∃ parsed, parse? misassigned = some parsed ∧ parsed.errors.length = 2 ∧
      ∃ s ∈ parsed.statements, s.expr?.isSome ∧ s.WellKinded ∧
        ∀ other rounds, (executeWith (evalOr other) rounds s : Exec Unit) = execute rounds s := by
  let value : Expr := .unary ⟨.symbol .minus, "-", 1⟩ (.reference ⟨.identifier "b", "b", 1⟩)
  let errors : List SyntaxError :=
    [⟨1, .lexeme "=", .invalidAssignmentTarget⟩, ⟨1, .lexeme "\x7d", .expectExpression⟩]
  have hparse : parse? misassigned = some ⟨[.expression value], errors⟩ := by rfl
  obtain ⟨hkinds, -, hruns⟩ := @parsed_operators_have_meaning Sink _ _ _ hparse
  exact ⟨_, hparse, rfl, .expression value, List.mem_singleton.2 rfl, rfl, hkinds _ (by simp),
    hruns _ (by simp)⟩

end Scriptlet
