import Scriptlet.Proofs.Actions

/-!
# Lines make no difference

The lines that tokens carry are shown in errors, and nothing else depends on them.  If all lines are
changed by a function, the same program does the same, and the line of its error is changed by the
function; only the line zero, which stands for none, has to stay as it is.

* `Token.mapLine`, `Expr.mapLines`, `Stmt.mapLines` : tokens and trees with other lines;
* `Carries` : an action does on changed states what another one does on the states themselves, and
  its errors are changed ones, with `Carries.bind`, by which this passes from the steps of an action
  to the whole;
* `eval_mapLines`, `execute_mapLines`, `interpret_mapLines` : **expressions, statements and programs
  do the same with other lines.**
-/

namespace Scriptlet

/-! ### Other lines -/

section MapLines

variable (f : Nat → Nat)

/-- A token on another line. -/
def Token.mapLine (t : Token) : Token := { t with line := f t.line }

/-- An error on another line. -/
def RuntimeError.mapLine (e : RuntimeError) : RuntimeError := { e with line := f e.line }

/-- The reason to stop, with an error on another line. -/
def Stop.mapLine : Stop → Stop
  | error e => error (e.mapLine f)
  | outOfRounds => outOfRounds

/-- An expression on other lines. -/
def Expr.mapLines : Expr → Expr
  | literal v => literal v
  | grouping inner => grouping inner.mapLines
  | unary operator operand => unary (operator.mapLine f) operand.mapLines
  | binary left operator right => binary left.mapLines (operator.mapLine f) right.mapLines
  | logical left operator right => logical left.mapLines (operator.mapLine f) right.mapLines
  | reference name => reference (name.mapLine f)
  | assign name value => assign (name.mapLine f) value.mapLines

mutual

/-- A statement on other lines. -/
def Stmt.mapLines : Stmt → Stmt
  | .print value => .print (value.mapLines f)
  | .expression e => .expression (e.mapLines f)
  | .var name init => .var (name.mapLine f) (init.map (Expr.mapLines f))
  | .block body => .block (Stmt.mapAllLines body)
  | .branch condition yes none => .branch (condition.mapLines f) yes.mapLines none
  | .branch condition yes (some no) =>
    .branch (condition.mapLines f) yes.mapLines (some no.mapLines)
  | .loop condition body => .loop (condition.mapLines f) body.mapLines
termination_by structural s => s

/-- Statements on other lines. -/
def Stmt.mapAllLines : List Stmt → List Stmt
  | [] => []
  | s :: rest => s.mapLines :: Stmt.mapAllLines rest
termination_by structural body => body

end

theorem Stmt.mapAllLines_eq (body : List Stmt) : mapAllLines f body = body.map (mapLines f) := by
  induction body with
  | nil => rfl
  | cons s rest ih => rw [mapAllLines, ih, List.map_cons]

theorem Expr.line?_mapLines (e : Expr) : (e.mapLines f).line? = e.line?.map f := by
  induction e with
  | grouping inner ih => exact ih
  | binary left operator right ihl _ =>
    simp only [mapLines, line?, ihl]
    cases left.line? <;> rfl
  | logical left operator right ihl _ =>
    simp only [mapLines, line?, ihl]
    cases left.line? <;> rfl
  | _ => rfl

end MapLines

/-! ### Actions on changed states -/

section Carries

variable {ε δ σ τ α β : Type} {f : σ → τ} {g : ε → δ}

/-- From a changed state the second action does what the first one does from the state itself; where
it ends, the state and the error are changed. -/
def Carries (f : σ → τ) (g : ε → δ) (x : EStateM ε σ α) (y : EStateM δ τ α) : Prop :=
  ∀ s, y (f s) = through f g (x s)

namespace Carries

variable {x : EStateM ε σ α} {y : EStateM δ τ α} {h : α → EStateM ε σ β} {k : α → EStateM δ τ β}

theorem bind (hx : Carries f g x y) (hh : ∀ a, Carries f g (h a) (k a)) :
    Carries f g (x >>= h) (y >>= k) := by
  intro s
  have hs := hx s
  cases hxs : x s with
  | ok a s' =>
    rw [hxs] at hs
    rw [bind_of_ok hs, bind_of_ok hxs, hh a s']
  | error e s' =>
    rw [hxs] at hs
    rw [bind_of_error hs, bind_of_error hxs]
    rfl

theorem pure (a : α) : Carries f g (Pure.pure a : EStateM ε σ α) (Pure.pure a) := fun _ => rfl

theorem ofExcept {result : Except ε α} {result' : Except δ α} (h : result' = result.mapError g) :
    Carries f g (ofExcept result : EStateM ε σ α) (ofExcept result') := by
  intro s
  subst h
  cases result <;> rfl

end Carries

end Carries

/-! ### Expressions -/

section Eval

variable (f : Nat → Nat)

theorem applyUnary_mapLine (operator : Token) (v : Value) :
    applyUnary (operator.mapLine f) v = (applyUnary operator v).mapError (.mapLine f) := by
  simp only [applyUnary, Token.mapLine]
  split
  · split <;> rfl
  · rfl
  · rfl

theorem applyBinary_mapLine (operator : Token) (a b : Value) :
    applyBinary (operator.mapLine f) a b = (applyBinary operator a b).mapError (.mapLine f) := by
  simp only [applyBinary, Token.mapLine]
  split
  · rfl
  · rfl
  · split <;> rfl
  · split <;> rfl

theorem lookUp_mapLine (here : ScopeId) (name : Token) :
    Carries id (RuntimeError.mapLine f) (lookUp here name) (lookUp here (name.mapLine f)) := by
  intro store
  simp only [lookUp, Store.get, Token.mapLine, id]
  cases (store.resolve? here name.lexeme).bind (store.bound? · name.lexeme) <;> rfl

theorem overwrite_mapLine (here : ScopeId) (name : Token) (v : Value) :
    Carries id (RuntimeError.mapLine f) (overwrite here name v)
      (overwrite here (name.mapLine f) v) := by
  intro store
  simp only [overwrite, Store.assign, Token.mapLine, id]
  cases store.resolve? here name.lexeme <;> rfl

/-- An expression has the same value on other lines. -/
theorem eval_mapLines (here : ScopeId) (e : Expr) :
    Carries id (RuntimeError.mapLine f) (eval here e) (eval here (e.mapLines f)) := by
  induction e with
  | literal v => exact .pure v
  | grouping inner ih => exact ih
  | unary operator operand ih =>
    exact ih.bind fun v => .ofExcept (applyUnary_mapLine f operator v)
  | binary left operator right ihl ihr =>
    exact ihl.bind fun a => ihr.bind fun b => .ofExcept (applyBinary_mapLine f operator a b)
  | logical left operator right ihl ihr =>
    refine ihl.bind fun a => ?_
    have hdecides : decides (operator.mapLine f) a = decides operator a := rfl
    rw [hdecides]
    split
    · exact .pure a
    · exact ihr
  | reference name =>
    rw [Expr.mapLines, eval_reference, eval_reference]
    exact lookUp_mapLine f here name
  | assign name value ih =>
    rw [Expr.mapLines, eval_assign, eval_assign]
    exact ih.bind (overwrite_mapLine f here name)

end Eval

/-! ### Statements -/

section Execute

open Exec

variable {ω : Type} {f : Nat → Nat}

theorem evaluate_mapLines (e : Expr) :
    Carries id (Stop.mapLine f) (evaluate e : ExecOn ω Value) (evaluate (e.mapLines f)) := by
  intro m
  have heval : eval m.here (e.mapLines f) m.store =
      through id (RuntimeError.mapLine f) (eval m.here e m.store) :=
    eval_mapLines f m.here e m.store
  rw [evaluate_eq, evaluate_eq, id, heval]
  cases eval m.here e m.store <;> rfl

theorem printLine_mapLine [Output ω] (v : Value) (line : Nat) :
    Carries id (Stop.mapLine f) (printLine v line : ExecOn ω Unit) (printLine v (f line)) := by
  intro m
  rw [printLine_eq, printLine_eq]
  simp only [id, printing]
  rcases Output.print v m.sink with ⟨_ | reason, after⟩ <;> rfl

theorem define_mapLine (name : String) (value : Value) :
    Carries id (Stop.mapLine f) (define name value : ExecOn ω Unit) (define name value) :=
  fun _ => rfl

theorem Carries.withinNew {x y : ExecOn ω Unit} (h : Carries id (Stop.mapLine f) x y) :
    Carries id (Stop.mapLine f) (withinNew x) (withinNew y) := by
  intro m
  have hinner : y m.inner = through id (Stop.mapLine f) (x m.inner) := h m.inner
  rw [withinNew_eq, withinNew_eq, id, hinner]
  cases x m.inner <;> rfl

theorem Carries.repeatWhile (condition : Expr) {x y : ExecOn ω Unit}
    (h : Carries id (Stop.mapLine f) x y) : ∀ rounds,
    Carries id (Stop.mapLine f) (repeatWhile condition x rounds)
      (repeatWhile (condition.mapLines f) y rounds) := by
  intro rounds
  induction rounds with
  | zero => exact fun _ => rfl
  | succ rounds ih =>
    refine (evaluate_mapLines condition).bind fun v => ?_
    split
    · exact h.bind fun _ => ih
    · exact .pure ()

variable [Output ω]

mutual

/-- A statement does the same on other lines. -/
theorem execute_mapLines (h0 : f 0 = 0) (rounds : Nat) : ∀ s,
    Carries id (Stop.mapLine f) (execute rounds s : ExecOn ω Unit) (execute rounds (s.mapLines f))
  | .print value => by
    refine (evaluate_mapLines value).bind fun v => ?_
    have hline : (value.mapLines f).line?.getD 0 = f (value.line?.getD 0) := by
      rw [Expr.line?_mapLines]
      cases value.line? with
      | none => exact h0.symm
      | some line => rfl
    rw [hline]
    exact printLine_mapLine _ _
  | .expression e => (evaluate_mapLines e).bind fun _ => .pure ()
  | .var name none => define_mapLine name.lexeme .nil
  | .var name (some init) => (evaluate_mapLines init).bind fun v => define_mapLine name.lexeme v
  | .block body => (executeAll_mapLines h0 rounds body).withinNew
  | .branch condition yes none => by
    refine (evaluate_mapLines condition).bind fun v => ?_
    split
    · exact execute_mapLines h0 rounds yes
    · exact .pure ()
  | .branch condition yes (some no) => by
    refine (evaluate_mapLines condition).bind fun v => ?_
    split
    · exact execute_mapLines h0 rounds yes
    · exact execute_mapLines h0 rounds no
  | .loop condition body => (execute_mapLines h0 rounds body).repeatWhile condition rounds
termination_by structural s => s

theorem executeAll_mapLines (h0 : f 0 = 0) (rounds : Nat) : ∀ body,
    Carries id (Stop.mapLine f) (executeAll rounds body : ExecOn ω Unit)
      (executeAll rounds (Stmt.mapAllLines f body))
  | [] => .pure ()
  | s :: rest =>
    (execute_mapLines h0 rounds s).bind fun _ => executeAll_mapLines h0 rounds rest
termination_by structural body => body

end

theorem flush_mapLine (h0 : f 0 = 0) :
    Carries id (Stop.mapLine f) (flush : ExecOn ω Unit) flush := by
  rintro ⟨store, here, sink⟩
  simp only [flush, id]
  rcases Output.flush sink with ⟨_ | reason, after⟩
  · rfl
  · simp only [through, Stop.mapLine, RuntimeError.mapLine, h0, id]

theorem Carries.flushing (h0 : f 0 = 0) {x y : ExecOn ω Unit}
    (h : Carries id (Stop.mapLine f) x y) :
    Carries id (Stop.mapLine f) (flushing x) (flushing y) := by
  intro m
  have hm := h m
  cases hx : x m with
  | ok _ after =>
    rw [hx] at hm
    rw [flushing_of_ok hm, flushing_of_ok hx]
    exact flush_mapLine h0 after
  | error stop after =>
    rw [hx] at hm
    cases stop with
    | outOfRounds =>
      rw [flushing_of_outOfRounds hm, flushing_of_outOfRounds hx]
      rfl
    | error e =>
      rw [flushing_of_error hm, flushing_of_error hx]
      rfl

/-- **A program does the same on other lines.** -/
theorem interpret_mapLines (h0 : f 0 = 0) (rounds : Nat) (program : List Stmt) (m : Machine ω) :
    interpret rounds (program.map (Stmt.mapLines f)) m =
      through id (Stop.mapLine f) (interpret rounds program m) := by
  rw [← Stmt.mapAllLines_eq]
  exact (executeAll_mapLines h0 rounds program).flushing h0 m

end Execute

end Scriptlet
