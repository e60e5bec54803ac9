import Scriptlet.Parse
import Scriptlet.Proofs.Lines
import Scriptlet.Proofs.Reading

/-!
# Parsing tokens on other lines

The parser looks at the kinds of tokens, and keeps tokens in trees and their lines in complaints.
So from tokens on other lines it builds the same trees, on other lines, and has the same complaints,
on other lines.

* `Rule.Carries` : a rule reads tokens on other lines as another one reads the tokens themselves,
  with `Rule.Carries.bind`, by which this passes from the parts of a rule to the whole;
* `Rule.expression_mapLines`, `Rule.statement_mapLines` and the like : so do all rules;
* `parse?_mapLines` : **parsing commutes with changing lines.**
-/

namespace Scriptlet

section MapLines

variable (f : Nat → Nat)

/-- An error on another line. -/
def SyntaxError.mapLine (e : SyntaxError) : SyntaxError := { e with line := f e.line }

/-- A cursor in a stream of tokens on other lines. -/
def Cursor.mapLines (c : Cursor) : Cursor := ⟨c.rest.map (Token.mapLine f), c.last.mapLine f⟩

/-- A reading on other lines, with another value. -/
def Reading.mapLines {α β : Type} (g : α → β) : Reading α → Reading β
  | done value cursor errors => done (g value) (cursor.mapLines f) (errors.map (.mapLine f))
  | stuck cursor errors => stuck (cursor.mapLines f) (errors.map (.mapLine f))
  | endless => endless

/-- What parsing gives, on other lines. -/
def Parse.mapLines (p : Parse) : Parse :=
  ⟨p.statements.map (Stmt.mapLines f), p.errors.map (.mapLine f)⟩

end MapLines

/-! ### Cursors -/

namespace Cursor

variable (f : Nat → Nat) (c : Cursor)

theorem peek_mapLines : (c.mapLines f).peek = c.peek.mapLine f := by
  obtain ⟨rest, last⟩ := c
  cases rest <;> rfl

theorem atEnd_mapLines : (c.mapLines f).atEnd = c.atEnd := by
  obtain ⟨rest, last⟩ := c
  cases rest <;> rfl

theorem next_mapLines : (c.mapLines f).next = c.next.mapLines f := by
  unfold next
  rw [atEnd_mapLines]
  split
  · rfl
  · simp only [mapLines, List.map_tail]

end Cursor

theorem SyntaxError.atToken_mapLine (f : Nat → Nat) (t : Token) (complaint : Complaint) :
    atToken (t.mapLine f) complaint = (atToken t complaint).mapLine f := rfl

theorem Reading.mapLines_after {α β : Type} (f : Nat → Nat) (g : α → β)
    (errors : List SyntaxError) (r : Reading α) :
    (r.after errors).mapLines f g = (r.mapLines f g).after (errors.map (.mapLine f)) := by
  cases r <;> simp [after, mapLines]

/-! ### Rules -/

namespace Rule

variable {α β γ δ : Type} {f : Nat → Nat}

/-- From tokens on other lines the second rule reads what the first one reads from the tokens
themselves, on other lines and with values changed by a function. -/
def Carries (f : Nat → Nat) (g : α → β) (x : Rule α) (y : Rule β) : Prop :=
  ∀ c : Cursor, y (c.mapLines f) = (x c).mapLines f g

namespace Carries

variable {g : α → β} {h : γ → δ} {x : Rule α} {y : Rule β} {k : α → Rule γ} {l : β → Rule δ}

theorem bind (hx : Carries f g x y) (hk : ∀ a, Carries f h (k a) (l (g a))) :
    Carries f h (x >>= k) (y >>= l) := by
  intro c
  rw [bind_apply, bind_apply, hx c]
  cases x c with
  | done a c' errors =>
    rw [Reading.mapLines_after, ← hk a c']
    rfl
  | stuck c' errors => rfl
  | endless => rfl

theorem pure (a : α) : Carries f g (Pure.pure a : Rule α) (Pure.pure (g a)) := fun _ => rfl

theorem map (hx : Carries f g x y) {k : α → γ} {l : β → δ} (hkl : ∀ a, l (g a) = h (k a)) :
    Carries f h (k <$> x) (l <$> y) := by
  rw [← bind_pure_comp, ← bind_pure_comp]
  refine hx.bind fun a => ?_
  rw [hkl]
  exact pure _

theorem some (hx : Carries f g x y) : Carries f (Option.map g) (some <$> x) (some <$> y) :=
  hx.map fun _ => rfl

theorem discard (hx : Carries f g x y) : Carries f id (discard x) (discard y) :=
  hx.map fun _ => rfl

theorem ite {b : Bool} {x' : Rule α} {y' : Rule β} (hx : Carries f g x y)
    (hx' : Carries f g x' y') : Carries f g (if b then x else x') (if b then y else y') := by
  cases b with
  | false => exact hx'
  | true => exact hx

end Carries

theorem endless_mapLines (g : α → β) : Carries f g (endless : Rule α) endless := fun _ => rfl

theorem fail_mapLines (g : α → β) (complaint : Complaint) :
    Carries f g (fail complaint : Rule α) (fail complaint) := by
  intro c
  rw [fail_apply, fail_apply, Cursor.peek_mapLines, SyntaxError.atToken_mapLine]
  rfl

theorem report_mapLines (e : SyntaxError) :
    Carries f id (report e) (report (e.mapLine f)) := fun _ => rfl

theorem peek_mapLines : Carries f id peek peek := by
  intro c
  rw [peek_apply, peek_apply, Cursor.peek_mapLines]
  rfl

theorem stopped_mapLines (stop : Kind → Bool) : Carries f id (stopped stop) (stopped stop) := by
  intro c
  rw [stopped_apply, stopped_apply, Cursor.peek_mapLines, Cursor.atEnd_mapLines]
  rfl

theorem advance_mapLines : Carries f (Token.mapLine f) advance advance := by
  intro c
  rw [advance_apply, advance_apply, Cursor.peek_mapLines, Cursor.next_mapLines]
  rfl

/-- What follows a look at the next token. -/
theorem Carries.peek_bind {h : γ → δ} {k : Kind → Rule γ} {l : Kind → Rule δ}
    (hk : ∀ kind, Carries f h (k kind) (l kind)) : Carries f h (peek >>= k) (peek >>= l) :=
  peek_mapLines.bind hk

theorem expect_mapLines (wanted : Kind → Bool) (complaint : Complaint) :
    Carries f (Token.mapLine f) (expect wanted complaint) (expect wanted complaint) :=
  .peek_bind fun _ => advance_mapLines.ite (fail_mapLines _ complaint)

theorem accept_mapLines (wanted : Kind → Bool) :
    Carries f id (accept wanted) (accept wanted) :=
  .peek_bind fun _ => .ite (advance_mapLines.discard.bind fun _ => .pure true) (.pure false)

theorem boundary_mapLines (rest : List Token) : ∀ previous : Token,
    boundary (previous.mapLine f) (rest.map (Token.mapLine f)) =
      (boundary previous rest).map (Token.mapLine f) := by
  induction rest with
  | nil => exact fun _ => rfl
  | cons t rest ih =>
    intro previous
    simp only [List.map_cons, boundary, ih t]
    show (if t.kind.isEnd || previous.kind.isSymbol .semicolon || startsStatement t.kind then _
      else _) = _
    split <;> rfl

theorem resume_mapLines (c : Cursor) : resume (c.mapLines f) = (resume c).mapLines f := by
  obtain ⟨rest, last⟩ := c
  cases rest with
  | nil => rfl
  | cons t rest =>
    simp only [resume, Cursor.mapLines, List.map_cons, boundary_mapLines]
    show (if t.kind.isEnd then _ else _) = _
    split <;> rfl

theorem recover_mapLines {g : α → β} {x : Rule α} {y : Rule β} (hx : Carries f g x y) :
    Carries f (Option.map g) (recover x) (recover y) := by
  intro c
  rw [recover_apply, recover_apply, hx c]
  cases x c with
  | done a c' errors => rfl
  | stuck c' errors => simp only [Reading.mapLines, resume_mapLines, Option.map_none]
  | endless => rfl

/-! ### Expressions -/

variable {e : Rule Expr} {s : Rule Stmt}

theorem primary_mapLines (he : Carries f (Expr.mapLines f) e e) :
    Carries f (Expr.mapLines f) (primary e) (primary e) := by
  refine .peek_bind fun kind => ?_
  split
  · exact advance_mapLines.discard.bind fun _ => .pure _
  · split
    · exact advance_mapLines.bind fun _ => .pure _
    · exact advance_mapLines.discard.bind fun _ => he.bind fun inner =>
        (expect_mapLines _ _).discard.bind fun _ => .pure _
    · exact fail_mapLines _ _

theorem unary_mapLines (he : Carries f (Expr.mapLines f) e e) :
    ∀ bound, Carries f (Expr.mapLines f) (unary e bound) (unary e bound) := by
  intro bound
  induction bound with
  | zero => exact endless_mapLines _
  | succ bound ih =>
    refine .peek_bind fun kind => ?_
    split
    · exact advance_mapLines.bind fun _ => ih.bind fun _ => .pure _
    · exact advance_mapLines.bind fun _ => ih.bind fun _ => .pure _
    · exact primary_mapLines he

theorem mapLines_join (level : Level) (left right : Expr) (operator : Token) :
    level.join (left.mapLines f) (operator.mapLine f) (right.mapLines f) =
      (level.join left operator right).mapLines f := by
  cases level <;> rfl

theorem chain_mapLines (he : Carries f (Expr.mapLines f) e e) (level : Level) : ∀ bound left,
    Carries f (Expr.mapLines f) (chain level e bound left)
      (chain level e bound (left.mapLines f)) := by
  intro bound
  induction bound with
  | zero => exact fun _ => endless_mapLines _
  | succ bound ih =>
    intro left
    refine .peek_bind fun kind => .ite ?_ (.pure left)
    refine advance_mapLines.bind fun operator => he.bind fun right => ?_
    rw [mapLines_join]
    exact ih _

theorem operand_mapLines (he : Carries f (Expr.mapLines f) e e) (bound : Nat) :
    ∀ levels, Carries f (Expr.mapLines f) (operand e bound levels) (operand e bound levels)
  | [] => he
  | level :: tighter =>
    have ih := operand_mapLines he bound tighter
    ih.bind fun left => chain_mapLines ih level bound left

theorem assignTo_mapLines (target value : Expr) (equals : Token) :
    Carries f (Expr.mapLines f) (assignTo target equals value)
      (assignTo (target.mapLines f) (equals.mapLine f) (value.mapLines f)) := by
  cases target with
  | reference name => exact .pure _
  | _ => exact (report_mapLines _).bind fun _ => .pure _

theorem expression_mapLines :
    ∀ bound, Carries f (Expr.mapLines f) (expression bound) (expression bound) := by
  intro bound
  induction bound with
  | zero => exact endless_mapLines _
  | succ bound ih =>
    refine (operand_mapLines (unary_mapLines ih _) _ _).bind fun target => ?_
    refine .peek_bind fun kind => .ite ?_ (.pure target)
    exact advance_mapLines.bind fun equals => ih.bind fun value => assignTo_mapLines _ _ _

/-! ### Statements -/

theorem varDeclaration_mapLines (he : Carries f (Expr.mapLines f) e e) :
    Carries f (Stmt.mapLines f) (varDeclaration e) (varDeclaration e) := by
  refine (expect_mapLines _ _).bind fun name => (accept_mapLines _).bind fun given => ?_
  have hfinish : ∀ init : Option Expr, Carries f (Stmt.mapLines f)
      (discard (expect (Kind.isSymbol .semicolon) .expectVariableEnd) >>= fun _ =>
        pure (.var name init))
      (discard (expect (Kind.isSymbol .semicolon) .expectVariableEnd) >>= fun _ =>
        pure (.var (name.mapLine f) (init.map (Expr.mapLines f)))) :=
    fun init => (expect_mapLines _ _).discard.bind fun _ => .pure (Stmt.var name init)
  exact .ite (he.some.bind hfinish) (Carries.bind (.pure none) hfinish)

theorem expressionStatement_mapLines (he : Carries f (Expr.mapLines f) e e) :
    Carries f (Stmt.mapLines f) (expressionStatement e) (expressionStatement e) :=
  he.bind fun _ => (expect_mapLines _ _).discard.bind fun _ => .pure _

theorem printStatement_mapLines (he : Carries f (Expr.mapLines f) e e) :
    Carries f (Stmt.mapLines f) (printStatement e) (printStatement e) :=
  he.bind fun _ => (expect_mapLines _ _).discard.bind fun _ => .pure _

theorem forInit_mapLines (he : Carries f (Expr.mapLines f) e e) :
    Carries f (Option.map (Stmt.mapLines f)) (forInit e) (forInit e) := by
  refine .peek_bind fun kind => ?_
  split
  · exact advance_mapLines.discard.bind fun _ => .pure none
  · exact advance_mapLines.discard.bind fun _ => (varDeclaration_mapLines he).some
  · exact (expressionStatement_mapLines he).some

theorem clause_mapLines {g : α → β} {x : Rule α} {y : Rule β} (missing : Kind → Bool) (a : α)
    (hx : Carries f g x y) : Carries f g (clause missing a x) (clause missing (g a) y) := by
  intro c
  unfold clause
  rw [Cursor.peek_mapLines]
  show (if missing c.peek.kind then _ else _) = _
  split
  · rfl
  · exact hx c

theorem mapLines_counted (init : Option Stmt) (condition : Expr) (increment : Option Expr)
    (body : Stmt) :
    Stmt.counted (init.map (Stmt.mapLines f)) (condition.mapLines f)
        (increment.map (Expr.mapLines f)) (body.mapLines f) =
      (Stmt.counted init condition increment body).mapLines f := by
  cases init <;> cases increment <;> rfl

theorem forStatement_mapLines (he : Carries f (Expr.mapLines f) e e)
    (hs : Carries f (Stmt.mapLines f) s s) :
    Carries f (Stmt.mapLines f) (forStatement e s) (forStatement e s) := by
  rw [forStatement_eq]
  refine (expect_mapLines _ _).discard.bind fun _ => (forInit_mapLines he).bind fun init => ?_
  refine (clause_mapLines _ _ he).bind fun condition => ?_
  refine (expect_mapLines _ _).discard.bind fun _ => ?_
  refine (clause_mapLines _ _ he.some).bind fun increment => ?_
  refine (expect_mapLines _ _).discard.bind fun _ => hs.bind fun body => ?_
  rw [mapLines_counted]
  exact .pure _

theorem ifStatement_mapLines (he : Carries f (Expr.mapLines f) e e)
    (hs : Carries f (Stmt.mapLines f) s s) :
    Carries f (Stmt.mapLines f) (ifStatement e s) (ifStatement e s) := by
  refine (expect_mapLines _ _).discard.bind fun _ => he.bind fun condition => ?_
  refine (expect_mapLines _ _).discard.bind fun _ => hs.bind fun yes => ?_
  refine (accept_mapLines _).bind fun given => ?_
  have hfinish : ∀ no : Option Stmt, Carries f (Stmt.mapLines f)
      (pure (.branch condition yes no))
      (pure (.branch (condition.mapLines f) (yes.mapLines f) (no.map (Stmt.mapLines f)))) := by
    intro no
    cases no with
    | none => exact .pure (Stmt.branch condition yes none)
    | some no => exact .pure (Stmt.branch condition yes (some no))
  exact .ite (hs.some.bind hfinish) (Carries.bind (.pure none) hfinish)

theorem whileStatement_mapLines (he : Carries f (Expr.mapLines f) e e)
    (hs : Carries f (Stmt.mapLines f) s s) :
    Carries f (Stmt.mapLines f) (whileStatement e s) (whileStatement e s) :=
  (expect_mapLines _ _).discard.bind fun _ => he.bind fun _ =>
    (expect_mapLines _ _).discard.bind fun _ => hs.bind fun _ => .pure _

theorem declaration_mapLines (he : Carries f (Expr.mapLines f) e e)
    (hs : Carries f (Stmt.mapLines f) s s) :
    Carries f (Option.map (Stmt.mapLines f)) (declaration e s) (declaration e s) :=
  recover_mapLines ((accept_mapLines _).bind fun _ => (varDeclaration_mapLines he).ite hs)

theorem declarations_mapLines {d : Rule (Option Stmt)}
    (hd : Carries f (Option.map (Stmt.mapLines f)) d d) (stop : Kind → Bool) : ∀ bound,
    Carries f (List.map (Stmt.mapLines f)) (declarations stop d bound)
      (declarations stop d bound) := by
  intro bound
  induction bound with
  | zero => exact endless_mapLines _
  | succ bound ih =>
    refine (stopped_mapLines stop).bind fun _ => .ite (.pure []) ?_
    refine hd.bind fun head => ih.bind fun tail => ?_
    have hjoin : (head.map (Stmt.mapLines f)).toList ++ tail.map (Stmt.mapLines f) =
        (head.toList ++ tail).map (Stmt.mapLines f) := by
      cases head <;> rfl
    rw [hjoin]
    exact .pure _

theorem block_mapLines {d : Rule (Option Stmt)}
    (hd : Carries f (Option.map (Stmt.mapLines f)) d d) (bound : Nat) :
    Carries f (Stmt.mapLines f) (block d bound) (block d bound) := by
  refine (declarations_mapLines hd _ bound).bind fun body => ?_
  rw [← Stmt.mapAllLines_eq]
  exact (expect_mapLines _ _).discard.bind fun _ => .pure (Stmt.block body)

theorem statement_mapLines (he : Carries f (Expr.mapLines f) e e) :
    ∀ bound, Carries f (Stmt.mapLines f) (statement e bound) (statement e bound) := by
  intro bound
  induction bound with
  | zero => exact endless_mapLines _
  | succ bound ih =>
    refine .peek_bind fun kind => ?_
    split
    · exact advance_mapLines.discard.bind fun _ => forStatement_mapLines he ih
    · exact advance_mapLines.discard.bind fun _ => ifStatement_mapLines he ih
    · exact advance_mapLines.discard.bind fun _ => printStatement_mapLines he
    · exact advance_mapLines.discard.bind fun _ => whileStatement_mapLines he ih
    · exact advance_mapLines.discard.bind fun _ => block_mapLines (declaration_mapLines he ih) _
    · exact expressionStatement_mapLines he

theorem program_mapLines (bound : Nat) :
    Carries f (List.map (Stmt.mapLines f)) (program bound) (program bound) :=
  have he := expression_mapLines bound
  declarations_mapLines (declaration_mapLines he (statement_mapLines he bound)) _ bound

end Rule

/-- **Parsing commutes with changing lines**, with and without errors, and also where it has no
answer. -/
theorem parse?_mapLines (f : Nat → Nat) (tokens : List Token) :
    parse? (tokens.map (Token.mapLine f)) = (parse? tokens).map (Parse.mapLines f) := by
  unfold parse?
  rw [List.getLast?_map, List.length_map]
  cases tokens.getLast? with
  | none => rfl
  | some last =>
    have h : (Rule.program (tokens.length + 1) : Rule _)
        ⟨tokens.map (Token.mapLine f), last.mapLine f⟩ = _ :=
      Rule.program_mapLines (tokens.length + 1) ⟨tokens, last⟩
    simp only [Option.map_some, h]
    cases (Rule.program (tokens.length + 1) : Rule _) ⟨tokens, last⟩ <;> rfl

end Scriptlet
