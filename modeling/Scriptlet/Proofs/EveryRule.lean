import Scriptlet.Proofs.Reading

/-!
# What passes from the steps to every rule

The rules of the grammar are made of a few steps and nothing else.  So a relation between rules that
the steps keep holds of every rule of the grammar.  A rule with a bound may even be related to the
same rule with a larger one, if what is endless is related to anything.

The one place at which a rule looks back is the end of an assignment: there it may report the equals
sign that it took before its value.  What takes that sign, reads the value and reports is therefore
one step here (`Rule.assigned`).  If a relation does not care what is reported, it comes for free
(`Rule.Composes.assigned`).

Two relations of this kind are of use.  Rules do the same from cursors that the steps cannot tell
apart; a rule with a larger bound does so wherever it comes to an end at all.  And wherever a rule
gets stuck, the last error that it has reported is about the token there, so nothing is used up
between a complaint and the recovery from it.

* `Rule.Respected` : the steps of the grammar keep a relation;
* `Rule.expression_respects`, `Rule.program_respects` and the like : then all rules do;
* `Rule.Indistinct`, `Rule.parallel_respected` : **rules do the same from cursors that the steps
  cannot tell apart**;
* `Rule.below_respected` : **a larger bound makes no difference to what ends**;
* `Rule.Complains`, `Rule.complains_respected` : **a rule gets stuck where it complains last.**
-/

namespace Scriptlet

/-- Whether the wording is that of an assignment to something that is no variable. -/
def Complaint.isMisassignment (complaint : Complaint) : Bool :=
  complaint.message == "Invalid assignment target."

namespace Rule

variable {α β : Type}

/-- What follows the left side of an assignment, or an operand that is none. -/
def assigned (target : Expr) (value : Rule Expr) : Rule Expr := do
  if (← peek).isSymbol .equal then
    let equals ← advance
    assignTo target equals (← value)
  else
    return target

/-- Some steps that every rule is made of keep a relation between rules. -/
structure Composes (R : ∀ α : Type, Rule α → Rule α → Prop) : Prop where
  pure {α : Type} (a : α) : R α (pure a) (pure a)
  bind {α β : Type} {x y : Rule α} {f g : α → Rule β} (hx : R α x y)
    (hf : ∀ a, R β (f a) (g a)) : R β (x >>= f) (y >>= g)
  peek : R Kind peek peek
  advance : R Token advance advance

/-- The steps of the grammar keep a relation between rules, and what is endless is related to
anything. -/
structure Respected (R : ∀ α : Type, Rule α → Rule α → Prop) : Prop extends Composes R where
  endless {α : Type} (y : Rule α) : R α endless y
  fail {α : Type} {complaint : Complaint} (h : complaint.isMisassignment = false) :
    R α (fail complaint) (fail complaint)
  stopped : R Bool (stopped (Kind.isSymbol .rightBrace)) (stopped (Kind.isSymbol .rightBrace))
  assigned {x y : Rule Expr} (hx : R Expr x y) (target : Expr) :
    R Expr (assigned target x) (assigned target y)
  recover {α : Type} {x y : Rule α} (hx : R α x y) : R (Option α) (recover x) (recover y)

/-- What holds without a bound, and with one more round on both sides, holds of every bound and any
larger one. -/
theorem bound_induction {P : Nat → Nat → Prop} (hzero : ∀ n', P 0 n')
    (hsucc : ∀ n n', n ≤ n' → P n n' → P (n + 1) (n' + 1)) : ∀ n n', n ≤ n' → P n n' := by
  intro n
  induction n with
  | zero => exact fun n' _ => hzero n'
  | succ n ih =>
    intro n' hn
    cases n' with
    | zero => exact absurd hn (Nat.not_succ_le_zero n)
    | succ n' => exact hsucc n n' (Nat.le_of_succ_le_succ hn) (ih n' (Nat.le_of_succ_le_succ hn))

section Respected

variable {R : ∀ α : Type, Rule α → Rule α → Prop}

theorem ite_respects {b : Bool} {x y x' y' : Rule α} (hx : R α x y) (hx' : R α x' y') :
    R α (if b then x else x') (if b then y else y') := by
  cases b with
  | false => exact hx'
  | true => exact hx

/-- A relation that does not care what is reported is kept to the end of an assignment. -/
theorem Composes.assigned (h : Composes R) (hreport : ∀ e, R Unit (report e) (report e))
    {x y : Rule Expr} (hx : R Expr x y) (target : Expr) :
    R Expr (assigned target x) (assigned target y) := by
  refine h.bind h.peek fun kind => ite_respects ?_ (h.pure target)
  refine h.bind h.advance fun equals => h.bind hx fun value => ?_
  cases target with
  | reference name => exact h.pure _
  | _ => exact h.bind (hreport _) fun _ => h.pure _

variable (h : Respected R)
include h

/-! ### Steps put together -/

theorem Respected.map {x y : Rule α} (hx : R α x y) (f : α → β) : R β (f <$> x) (f <$> y) := by
  rw [← bind_pure_comp, ← bind_pure_comp]
  exact h.bind hx fun a => h.pure (f a)

theorem Respected.discard {x y : Rule α} (hx : R α x y) :
    R PUnit (Functor.discard x) (Functor.discard y) := h.map hx _

/-- One of two parts, and what comes behind them. -/
theorem Respected.ite_bind {b : Bool} {x y x' y' : Rule α} {f g : α → Rule β} (hx : R α x y)
    (hx' : R α x' y') (hf : ∀ a, R β (f a) (g a)) :
    R β (if b then x >>= f else x' >>= f) (if b then y >>= g else y' >>= g) :=
  ite_respects (h.bind hx hf) (h.bind hx' hf)

theorem expect_respects (wanted : Kind → Bool) {complaint : Complaint}
    (hc : complaint.isMisassignment = false) :
    R Token (expect wanted complaint) (expect wanted complaint) :=
  h.bind h.peek fun _ => ite_respects h.advance (h.fail hc)

theorem accept_respects (wanted : Kind → Bool) : R Bool (accept wanted) (accept wanted) :=
  h.bind h.peek fun _ =>
    ite_respects (h.bind (h.discard h.advance) fun _ => h.pure true) (h.pure false)

/-- An expected token that ends a rule. -/
theorem close_respects (wanted : Kind → Bool) {complaint : Complaint}
    (hc : complaint.isMisassignment = false) (a : α) :
    R α (discard (expect wanted complaint) >>= fun _ => pure a)
      (discard (expect wanted complaint) >>= fun _ => pure a) :=
  h.bind (h.discard (expect_respects h wanted hc)) fun _ => h.pure a

/-! ### Expressions -/

variable {e e' : Rule Expr} {s s' : Rule Stmt}

theorem primary_respects (he : R Expr e e') : R Expr (primary e) (primary e') := by
  refine h.bind h.peek fun kind => ?_
  split
  · exact h.bind (h.discard h.advance) fun _ => h.pure _
  · split
    · exact h.bind h.advance fun _ => h.pure _
    · refine h.bind (h.discard h.advance) fun _ => h.bind he fun _ => ?_
      exact close_respects h _ (by decide) _
    · exact h.fail (by decide)

theorem unary_respects (he : R Expr e e') :
    ∀ n n', n ≤ n' → R Expr (unary e n) (unary e' n') := by
  refine bound_induction (fun _ => h.endless _) fun n n' _ ih => ?_
  refine h.bind h.peek fun kind => ?_
  split
  · exact h.bind h.advance fun _ => h.bind ih fun _ => h.pure _
  · exact h.bind h.advance fun _ => h.bind ih fun _ => h.pure _
  · exact primary_respects h he

theorem chain_respects (he : R Expr e e') (level : Level) :
    ∀ n n', n ≤ n' → ∀ left, R Expr (chain level e n left) (chain level e' n' left) := by
  refine bound_induction (fun _ _ => h.endless _) fun n n' _ ih left => ?_
  refine h.bind h.peek fun kind => ite_respects ?_ (h.pure left)
  exact h.bind h.advance fun _ => h.bind he fun _ => ih _

theorem operand_respects (he : R Expr e e') {n n' : Nat} (hn : n ≤ n') :
    ∀ levels, R Expr (operand e n levels) (operand e' n' levels)
  | [] => he
  | level :: tighter =>
    have ih := operand_respects he hn tighter
    h.bind ih fun left => chain_respects h ih level n n' hn left

theorem expression_respects : ∀ n n', n ≤ n' → R Expr (expression n) (expression n') := by
  refine bound_induction (fun _ => h.endless _) fun n n' hn ih => ?_
  have hn' : n + 1 ≤ n' + 1 := Nat.succ_le_succ hn
  exact h.bind (operand_respects h (unary_respects h ih _ _ hn') hn' _) fun target =>
    h.assigned ih target

/-! ### Statements -/

theorem varDeclaration_respects (he : R Expr e e') :
    R Stmt (varDeclaration e) (varDeclaration e') := by
  refine h.bind (expect_respects h _ (by decide)) fun name => ?_
  refine h.bind (accept_respects h _) fun given => ?_
  exact h.ite_bind (h.map he some) (h.pure none) fun _ => close_respects h _ (by decide) _

theorem expressionStatement_respects (he : R Expr e e') :
    R Stmt (expressionStatement e) (expressionStatement e') :=
  h.bind he fun _ => close_respects h _ (by decide) _

theorem printStatement_respects (he : R Expr e e') :
    R Stmt (printStatement e) (printStatement e') :=
  h.bind he fun _ => close_respects h _ (by decide) _

theorem forInit_respects (he : R Expr e e') : R (Option Stmt) (forInit e) (forInit e') := by
  refine h.bind h.peek fun kind => ?_
  split
  · exact h.bind (h.discard h.advance) fun _ => h.pure none
  · exact h.bind (h.discard h.advance) fun _ => h.map (varDeclaration_respects h he) some
  · exact h.map (expressionStatement_respects h he) some

theorem forStatement_respects (he : R Expr e e') (hs : R Stmt s s') :
    R Stmt (forStatement e s) (forStatement e' s') := by
  refine h.bind (h.discard (expect_respects h _ (by decide))) fun _ => ?_
  refine h.bind (forInit_respects h he) fun init => h.bind h.peek fun kind => ?_
  refine h.ite_bind (h.pure _) he fun condition => ?_
  refine h.bind (h.discard (expect_respects h _ (by decide))) fun _ => h.bind h.peek fun kind => ?_
  refine h.ite_bind (h.pure none) (h.map he some) fun increment => ?_
  exact h.bind (h.discard (expect_respects h _ (by decide))) fun _ => h.bind hs fun body => h.pure _

theorem ifStatement_respects (he : R Expr e e') (hs : R Stmt s s') :
    R Stmt (ifStatement e s) (ifStatement e' s') := by
  refine h.bind (h.discard (expect_respects h _ (by decide))) fun _ => h.bind he fun condition => ?_
  refine h.bind (h.discard (expect_respects h _ (by decide))) fun _ => h.bind hs fun yes => ?_
  refine h.bind (accept_respects h _) fun given => ?_
  exact h.ite_bind (h.map hs some) (h.pure none) fun _ => h.pure _

theorem whileStatement_respects (he : R Expr e e') (hs : R Stmt s s') :
    R Stmt (whileStatement e s) (whileStatement e' s') := by
  refine h.bind (h.discard (expect_respects h _ (by decide))) fun _ => h.bind he fun condition => ?_
  exact h.bind (h.discard (expect_respects h _ (by decide))) fun _ => h.bind hs fun body => h.pure _

/-! ### Declarations -/

omit h in
theorem accept_var_bind (e : Rule Expr) (s : Rule Stmt) :
    (accept (Kind.isKeyword .var) >>= fun given => if given then varDeclaration e else s) =
      unrecovered e s := by
  funext c
  rw [accept_bind]
  rfl

theorem unrecovered_respects (he : R Expr e e') (hs : R Stmt s s') :
    R Stmt (unrecovered e s) (unrecovered e' s') := by
  rw [← accept_var_bind, ← accept_var_bind]
  exact h.bind (accept_respects h _) fun _ => ite_respects (varDeclaration_respects h he) hs

theorem declaration_respects (he : R Expr e e') (hs : R Stmt s s') :
    R (Option Stmt) (declaration e s) (declaration e' s') := by
  rw [declaration_eq, declaration_eq]
  exact h.recover (unrecovered_respects h he hs)

theorem declarations_respects {d d' : Rule (Option Stmt)} (hd : R (Option Stmt) d d')
    {stop : Kind → Bool} (hstop : R Bool (stopped stop) (stopped stop)) :
    ∀ n n', n ≤ n' → R (List Stmt) (declarations stop d n) (declarations stop d' n') := by
  refine bound_induction (fun _ => h.endless _) fun n n' _ ih => ?_
  refine h.bind hstop fun _ => ite_respects (h.pure []) ?_
  exact h.bind hd fun head => h.bind ih fun tail => h.pure _

theorem statement_respects (he : R Expr e e') :
    ∀ n n', n ≤ n' → R Stmt (statement e n) (statement e' n') := by
  refine bound_induction (fun _ => h.endless _) fun n n' hn ih => ?_
  refine h.bind h.peek fun kind => ?_
  split
  · exact h.bind (h.discard h.advance) fun _ => forStatement_respects h he ih
  · exact h.bind (h.discard h.advance) fun _ => ifStatement_respects h he ih
  · exact h.bind (h.discard h.advance) fun _ => printStatement_respects h he
  · exact h.bind (h.discard h.advance) fun _ => whileStatement_respects h he ih
  · refine h.bind (h.discard h.advance) fun _ => ?_
    have hbody := declarations_respects h (declaration_respects h he ih) h.stopped (n + 1) (n' + 1)
      (Nat.succ_le_succ hn)
    exact h.bind hbody fun _ => close_respects h _ (by decide) _
  · exact expressionStatement_respects h he

/-- The rule for declarations, with bounds and with larger ones. -/
theorem grammar_respects {n n' k k' : Nat} (hn : n ≤ n') (hk : k ≤ k') :
    R Stmt (unrecovered (expression n) (statement (expression n) k))
      (unrecovered (expression n') (statement (expression n') k')) :=
  have he := expression_respects h n n' hn
  unrecovered_respects h he (statement_respects h he k k' hk)

/-- The rule for programs, with a bound and with a larger one, if the end of the source is seen
alike. -/
theorem program_respects {n n' : Nat} (hn : n ≤ n')
    (hstop : R Bool (stopped fun _ => false) (stopped fun _ => false)) :
    R (List Stmt) (program n) (program n') :=
  have he := expression_respects h n n' hn
  have hd := declaration_respects h he (statement_respects h he n n' hn)
  declarations_respects h hd hstop n n' hn

end Respected

/-! ### Cursors that cannot be told apart -/

/-- The steps of the grammar cannot tell related cursors apart. -/
structure Indistinct (P : Cursor → Cursor → Prop) : Prop where
  peek {c c' : Cursor} (h : P c c') : c.peek = c'.peek
  stopped {c c' : Cursor} (h : P c c') :
    (c.atEnd || c.peek.kind.isSymbol .rightBrace) = (c'.atEnd || c'.peek.kind.isSymbol .rightBrace)
  next {c c' : Cursor} (h : P c c') : P c.next c'.next
  resume {c c' : Cursor} (h : P c c') : P (resume c) (resume c')

/-- Two readings are the same but for their cursors, which are related, unless the first one is
endless. -/
inductive Matches (P : Cursor → Cursor → Prop) : Reading α → Reading α → Prop
  | done {a : α} {c c' : Cursor} {errors : List SyntaxError} (h : P c c') :
    Matches P (.done a c errors) (.done a c' errors)
  | stuck {c c' : Cursor} {errors : List SyntaxError} (h : P c c') :
    Matches P (.stuck c errors) (.stuck c' errors)
  | endless (reading : Reading α) : Matches P .endless reading

variable {P : Cursor → Cursor → Prop}

theorem Matches.after {r s : Reading α} (h : Matches P r s) (errors : List SyntaxError) :
    Matches P (r.after errors) (s.after errors) := by
  cases h with
  | done h => exact .done h
  | stuck h => exact .stuck h
  | endless => exact .endless _

/-- Rules read the same from related cursors. -/
def Parallel (P : Cursor → Cursor → Prop) (x y : Rule α) : Prop :=
  ∀ c c', P c c' → Matches P (x c) (y c')

theorem parallel_stopped {stop : Kind → Bool}
    (h : ∀ c c', P c c' → (c.atEnd || stop c.peek.kind) = (c'.atEnd || stop c'.peek.kind)) :
    Parallel P (stopped stop) (stopped stop) := by
  intro c c' hc
  rw [stopped_apply, stopped_apply, h c c' hc]
  exact .done hc

theorem parallel_composes (hP : Indistinct P) : Composes fun _ x y => Parallel P x y where
  pure a _ _ hc := .done hc
  bind {α β x y f g} hx hf c c' hc := by
    have hxy := hx c c' hc
    rw [bind_apply, bind_apply]
    generalize x c = r at hxy
    generalize y c' = s at hxy
    cases hxy with
    | done h => exact (hf _ _ _ h).after _
    | stuck h => exact .stuck h
    | endless => exact .endless _
  peek c c' hc := by
    rw [peek_apply, peek_apply, hP.peek hc]
    exact .done hc
  advance c c' hc := by
    rw [advance_apply, advance_apply, hP.peek hc]
    exact .done (hP.next hc)

/-- **Rules do the same from cursors that the steps cannot tell apart.** -/
theorem parallel_respected (hP : Indistinct P) : Respected fun _ x y => Parallel P x y where
  toComposes := parallel_composes hP
  endless _ _ _ _ := .endless _
  fail {α complaint} _ c c' hc := by
    rw [fail_apply, fail_apply, hP.peek hc]
    exact .stuck hc
  stopped := parallel_stopped fun _ _ => hP.stopped
  assigned hx target := (parallel_composes hP).assigned (fun _ _ _ hc => .done hc) hx target
  recover {α x y} hx c c' hc := by
    have hxy := hx c c' hc
    rw [recover_apply, recover_apply]
    generalize x c = r at hxy
    generalize y c' = s at hxy
    cases hxy with
    | done h => exact .done h
    | stuck h => exact .done (hP.resume h)
    | endless => exact .endless _

/-! ### Larger bounds -/

/-- **A larger bound makes no difference to what ends.** -/
theorem below_respected : Respected fun _ x y => Parallel Eq x y :=
  parallel_respected
    ⟨fun h => by rw [h], fun h => by rw [h], fun h => by rw [h], fun h => by rw [h]⟩

theorem Parallel.eq {x y : Rule α} (h : Parallel Eq x y) {c : Cursor} (hc : x c ≠ .endless) :
    x c = y c := by
  have hxy := h c c rfl
  generalize x c = r at hc hxy
  generalize y c = s at hxy
  cases hxy with
  | done h => rw [h]
  | stuck h => rw [h]
  | endless => exact absurd rfl hc

/-! ### The last complaint -/

/-- Wherever a rule gets stuck, its last error is about the token there. -/
def Complains (x : Rule α) : Prop :=
  ∀ c c' errors, x c = .stuck c' errors →
    ∃ complaint, errors.getLast? = some (SyntaxError.atToken c'.peek complaint)

theorem complains_composes : Composes fun _ x _ => Complains x where
  pure _ _ _ _ h := by cases h
  bind {α β x y f g} hx hf c c' errors h := by
    rw [bind_apply] at h
    cases hread : x c with
    | endless => rw [hread] at h; cases h
    | stuck c₁ errors₁ =>
      rw [hread] at h
      cases h
      exact hx c _ _ hread
    | done a c₁ errors₁ =>
      simp only [hread] at h
      cases hread' : f a c₁ with
      | endless => rw [hread'] at h; cases h
      | done b c₂ errors₂ => rw [hread'] at h; cases h
      | stuck c₂ errors₂ =>
        rw [hread'] at h
        cases h
        -- the errors of the second part come last
        obtain ⟨complaint, hlast⟩ := hf a c₁ _ _ hread'
        exact ⟨complaint, by rw [List.getLast?_append, hlast]; rfl⟩
  peek _ _ _ h := by cases h
  advance _ _ _ h := by cases h

/-- **A rule gets stuck where it complains last.** -/
theorem complains_respected : Respected fun _ x _ => Complains x where
  toComposes := complains_composes
  endless _ _ _ _ h := by cases h
  fail {α complaint} _ c c' errors h := by
    cases h
    exact ⟨complaint, rfl⟩
  stopped _ _ _ h := by cases h
  assigned {x _} hx target :=
    complains_composes.assigned (y := x) (fun _ _ _ _ h => by cases h) hx target
  recover {α x y} _ c c' errors h := by
    rw [recover_apply] at h
    cases hread : x c with
    | done a c₁ errors₁ => rw [hread] at h; cases h
    | stuck c₁ errors₁ => rw [hread] at h; cases h
    | endless => rw [hread] at h; cases h

/-- The rule for declarations gets stuck where it complains last. -/
theorem grammar_complains (n k : Nat) :
    Complains (unrecovered (expression n) (statement (expression n) k)) :=
  grammar_respects complains_respected (Nat.le_refl n) (Nat.le_refl k)

theorem Complains.ne_nil {x : Rule α} (hx : Complains x) {c c' : Cursor} {errors : List SyntaxError}
    (h : x c = .stuck c' errors) : errors ≠ [] := by
  obtain ⟨complaint, hlast⟩ := hx c c' errors h
  rintro rfl
  cases hlast

end Rule

end Scriptlet
