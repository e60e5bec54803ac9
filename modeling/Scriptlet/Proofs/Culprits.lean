import Scriptlet.Proofs.Operators
import Scriptlet.Proofs.Sessions

/-!
# Errors point at tokens of the source

A program is made of the tokens of its source: parsing puts them into the tree as they are, also
where it builds a `for` loop from other statements.  Evaluation takes the line of an error from the
operator or the name that it was at.  So an error of a running source can be traced back to a token
of the source that is to blame.

* `Expr.tokens` : the tokens kept in an expression;
* `Derivation.mem_tokens` : **they are tokens from which the program is derived**;
* `RuntimeError.PointsAt`, `RuntimeError.Explained` : an error is due to a token, or to the output;
* `errors_point_at_tokens` : **every error of a source is explained by its tokens.**
-/

namespace Scriptlet

/-! ### The tokens of a tree -/

/-- The tokens kept in an expression, from left to right. -/
def Expr.tokens : Expr → List Token
  | literal _ => []
  | grouping inner => inner.tokens
  | unary operator operand => operator :: operand.tokens
  | binary left operator right => left.tokens ++ operator :: right.tokens
  | logical left operator right => left.tokens ++ operator :: right.tokens
  | reference name => [name]
  | assign name value => name :: value.tokens

theorem Expr.exists_token_of_line? {e : Expr} {line : Nat} (h : e.line? = some line) :
    ∃ t ∈ e.tokens, t.line = line := by
  induction e with
  | literal v => cases h
  | grouping inner ih => exact ih h
  | unary operator operand _ => exact ⟨operator, by simp [tokens], Option.some.inj h⟩
  | reference name => exact ⟨name, by simp [tokens], Option.some.inj h⟩
  | assign name value _ => exact ⟨name, by simp [tokens], Option.some.inj h⟩
  | binary left operator right ihl _ | logical left operator right ihl _ =>
    rcases Option.or_eq_some_iff.1 h with h | ⟨-, h⟩
    · obtain ⟨t, ht, hline⟩ := ihl h
      exact ⟨t, by simp [tokens, ht], hline⟩
    · exact ⟨operator, by simp [tokens], Option.some.inj h⟩

namespace Grammar

/-- An expression keeps tokens from which it is derived. -/
theorem ExprDerivation.mem_tokens {r : Rank} (d : ExprDerivation r) :
    ∀ t ∈ d.tree.tokens, t ∈ d.tokens := by
  induction d with
  | assign name equal value ih =>
    intro t ht
    rcases List.mem_cons.1 ht with rfl | ht
    · simp [tokens]
    · simp [tokens, ih t ht]
  | operand e ih | first e ih | bare e ih => exact ih
  | more left operator right ihl ihr =>
    rename_i l
    intro t ht
    have hnode : ∀ a o b, (node l a o b).tokens = a.tokens ++ o :: b.tokens := by
      intro a o b
      cases l <;> rfl
    rw [tree, hnode, List.mem_append, List.mem_cons] at ht
    rcases ht with ht | rfl | ht
    · simp [tokens, ihl t ht]
    · simp [tokens]
    · simp [tokens, ihr t ht]
  | unary operator e ih =>
    intro t ht
    rcases List.mem_cons.1 ht with rfl | ht
    · simp [tokens]
    · simp [tokens, ih t ht]
  | number | string | true | false | nil => intro t ht; cases ht
  | reference name => exact fun t ht => ht
  | group opening e closing ih =>
    intro t ht
    simp [tokens, ih t ht]

/-- All expressions in the tree of a phrase. -/
def Phrase.exprs : {p : Phrase} → p.Tree → List Expr
  | .program, body => Stmt.allExprs body
  | .declaration, s => Stmt.exprs s
  | .statement, s => Stmt.exprs s

theorem mem_exprs_forTree {init : Option Stmt} {condition increment : Option Expr} {body : Stmt}
    {e : Expr} (h : e ∈ (forTree init condition increment body).exprs) :
    (∃ s ∈ init, e ∈ s.exprs) ∨ e ∈ condition ∨ e = .literal (.boolean true) ∨ e ∈ increment ∨
      e ∈ body.exprs := by
  cases init <;> cases condition <;> cases increment <;>
    simp [forTree, Stmt.exprs, Stmt.allExprs] at h ⊢ <;> grind

theorem VarDeclaration.mem_tokens (d : VarDeclaration) {e : Expr} (he : e ∈ d.tree.exprs) :
    ∀ t ∈ e.tokens, t ∈ d.tokens := by
  obtain ⟨start, name, init, finish⟩ := d
  intro t ht
  cases init with
  | none => cases he
  | some init =>
    obtain rfl : e = init.2.tree := by simpa [tree, Stmt.exprs] using he
    simp [tokens, initTokens, init.2.mem_tokens t ht]

theorem ForInit.mem_tokens (init : ForInit) {s : Stmt} (hs : s ∈ init.tree) {e : Expr}
    (he : e ∈ s.exprs) : ∀ t ∈ e.tokens, t ∈ init.tokens := by
  intro t ht
  cases init with
  | none finish => cases hs
  | var d =>
    cases hs
    exact d.mem_tokens he t ht
  | expression value finish =>
    cases hs
    obtain rfl : e = value.tree := by simpa [Stmt.exprs] using he
    simp [tokens, value.mem_tokens t ht]

theorem mem_optionalTokens {clause : Option Expression} {e : Expr}
    (he : e ∈ clause.map (·.tree)) : ∀ t ∈ e.tokens, t ∈ optionalTokens clause := by
  intro t ht
  cases clause with
  | none => cases he
  | some clause =>
    cases he
    exact clause.mem_tokens t ht

/-- **The expressions of a program keep tokens from which the program is derived.** -/
theorem Derivation.mem_tokens {p : Phrase} (d : Derivation p) :
    ∀ e ∈ Phrase.exprs d.tree, ∀ t ∈ e.tokens, t ∈ d.tokens := by
  induction d with
  | empty => intro e he; cases he
  | cons d rest ih ihs =>
    intro e he t ht
    rw [tokens, List.mem_append]
    rcases List.mem_append.1 he with he | he
    · exact .inl (ih e he t ht)
    · exact .inr (ihs e he t ht)
  | var d => exact fun e he => d.mem_tokens he
  | statement s ih => exact ih
  | expression value finish =>
    intro e he t ht
    obtain rfl := List.mem_singleton.1 he
    simp [tokens, value.mem_tokens t ht]
  | print start value finish =>
    intro e he t ht
    obtain rfl := List.mem_singleton.1 he
    simp [tokens, value.mem_tokens t ht]
  | block opening body closing ih =>
    intro e he t ht
    simp [tokens, ih e he t ht]
  | ifOnly start opening condition closing yes ih =>
    intro e he t ht
    rcases List.mem_cons.1 he with rfl | he
    · simp [tokens, condition.mem_tokens t ht]
    · simp [tokens, ih e he t ht]
  | ifElse start opening condition closing yes otherwise no ih ih' =>
    intro e he t ht
    rcases List.mem_cons.1 he with rfl | he
    · simp [tokens, condition.mem_tokens t ht]
    · rcases List.mem_append.1 he with he | he
      · simp [tokens, ih e he t ht]
      · simp [tokens, ih' e he t ht]
  | «while» start opening condition closing body ih =>
    intro e he t ht
    rcases List.mem_cons.1 he with rfl | he
    · simp [tokens, condition.mem_tokens t ht]
    · simp [tokens, ih e he t ht]
  | «for» start opening init condition finish increment closing body ih =>
    intro e he t ht
    rcases mem_exprs_forTree he with ⟨s, hs, he⟩ | he | rfl | he | he
    · simp [tokens, init.mem_tokens hs he t ht]
    · simp [tokens, mem_optionalTokens he t ht]
    · cases ht
    · simp [tokens, mem_optionalTokens he t ht]
    · simp [tokens, ih e he t ht]

end Grammar

/-- The expressions of a parsed source keep tokens of the source. -/
theorem mem_tokens_of_check {source : String} {program : List Stmt}
    (h : check source = .program program) :
    ∀ e ∈ Stmt.allExprs program, ∀ t ∈ e.tokens, t ∈ (scan source).tokens := by
  obtain ⟨-, hparse⟩ := check_eq_program_iff.1 h
  obtain ⟨last, hlast, htokens, hinner⟩ := exists_end_scan source
  rw [htokens] at hparse
  obtain ⟨d, hd, -, rfl⟩ := exists_derivation_of_parse? hinner hlast hparse rfl
  intro e he t ht
  have hmem := d.mem_tokens e he t ht
  rw [hd] at hmem
  exact List.dropLast_subset _ hmem

/-! ### Errors of expressions -/

namespace RuntimeError

/-- A token is what an error is due to: a name that is not found, an addition of values that cannot
be added, or another operator on something that is no number. -/
def PointsAt (e : RuntimeError) (t : Token) : Prop :=
  e.line = t.line ∧
    (e.fault.message = "Undefined variable '" ++ t.lexeme ++ "'." ∧ t.kind.isIdentifier = true ∨
      e.fault.message = "Operands must be two numbers or two strings." ∧ t.kind = .symbol .plus ∨
      e.fault.message = "Operand must be a number." ∧
        t.kind ∈ [Kind.symbol .minus, .symbol .star, .symbol .slash, .symbol .less,
          .symbol .lessEqual, .symbol .greater, .symbol .greaterEqual])

/-- An error is due to one of the tokens, or else to the output; then its line is that of one of the
tokens, or there is none. -/
def Explained (tokens : List Token) (e : RuntimeError) : Prop :=
  (∃ reason, e.fault.message = "Failed to write output: " ++ reason ∧
    (e.line = 0 ∨ ∃ t ∈ tokens, e.line = t.line)) ∨
  ∃ t ∈ tokens, e.PointsAt t

end RuntimeError

theorem pointsAt_of_applyUnary {operator : Token} {v : Value} {e : RuntimeError}
    (h : applyUnary operator v = .error e) : e.PointsAt operator := by
  unfold applyUnary at h
  split at h
  · rename_i hkind
    split at h
    · cases h
    · cases h
      exact ⟨rfl, .inr (.inr ⟨rfl, by simp [hkind]⟩)⟩
  · cases h
  · cases h

theorem pointsAt_of_applyBinary {operator : Token} (hkind : operator.kind.isBinary = true)
    {a b : Value} {e : RuntimeError} (h : applyBinary operator a b = .error e) :
    e.PointsAt operator := by
  unfold applyBinary at h
  split at h
  · cases h
  · cases h
  · rename_i hplus
    split at h
    · cases h
    · cases h
    · cases h
      exact ⟨rfl, .inr (.inl ⟨rfl, hplus⟩)⟩
  · rename_i hequal hunequal hplus
    split at h
    · cases h
    · cases h
      refine ⟨rfl, .inr (.inr ⟨rfl, ?_⟩)⟩
      unfold Kind.isBinary at hkind
      split at hkind <;> simp_all

theorem pointsAt_undefined {name : Token} (h : name.kind.isIdentifier = true) :
    (Store.undefined name).PointsAt name :=
  ⟨rfl, .inl ⟨rfl, h⟩⟩

theorem pointsAt_of_lookUp {here : ScopeId} {name : Token} (hname : name.kind.isIdentifier = true)
    {store after : Store} {e : RuntimeError} (h : lookUp here name store = .error e after) :
    e.PointsAt name := by
  unfold lookUp Store.get at h
  generalize (store.resolve? here name.lexeme).bind (store.bound? · name.lexeme) = found at h
  cases found with
  | some v => cases h
  | none =>
    cases h
    exact pointsAt_undefined hname

theorem pointsAt_of_overwrite {here : ScopeId} {name : Token} (hname : name.kind.isIdentifier = true)
    {v : Value} {store after : Store} {e : RuntimeError}
    (h : overwrite here name v store = .error e after) : e.PointsAt name := by
  unfold overwrite Store.assign at h
  generalize store.resolve? here name.lexeme = home at h
  cases home with
  | some home => cases h
  | none =>
    cases h
    exact pointsAt_undefined hname

theorem eq_error_of_ofExcept {ε σ α : Type} {result : Except ε α} {s s' : σ} {e : ε}
    (h : (ofExcept result : EStateM ε σ α) s = .error e s') : result = .error e := by
  cases result with
  | ok a => cases h
  | error e' => cases h; rfl

/-- **Evaluation fails at a token of the expression**, which is the one that is to blame. -/
theorem eval_pointsAt {here : ScopeId} {e : Expr} (he : e.WellKinded) :
    ∀ {store after : Store} {error : RuntimeError}, eval here e store = .error error after →
      ∃ t ∈ e.tokens, error.PointsAt t := by
  induction e with
  | literal v => intro store after error h; cases h
  | grouping inner ih => exact ih he
  | unary operator operand ih =>
    intro store after error h
    rcases bind_eq_error h with h | ⟨v, between, -, h⟩
    · obtain ⟨t, ht, hpoints⟩ := ih he.2 h
      exact ⟨t, by simp [Expr.tokens, ht], hpoints⟩
    · exact ⟨operator, by simp [Expr.tokens], pointsAt_of_applyUnary (eq_error_of_ofExcept h)⟩
  | binary left operator right ihl ihr =>
    intro store after error h
    rcases bind_eq_error h with h | ⟨a, between, -, h⟩
    · obtain ⟨t, ht, hpoints⟩ := ihl he.2.1 h
      exact ⟨t, by simp [Expr.tokens, ht], hpoints⟩
    rcases bind_eq_error h with h | ⟨b, between, -, h⟩
    · obtain ⟨t, ht, hpoints⟩ := ihr he.2.2 h
      exact ⟨t, by simp [Expr.tokens, ht], hpoints⟩
    · exact ⟨operator, by simp [Expr.tokens],
        pointsAt_of_applyBinary he.1 (eq_error_of_ofExcept h)⟩
  | logical left operator right ihl ihr =>
    intro store after error h
    rcases bind_eq_error h with h | ⟨a, between, -, h⟩
    · obtain ⟨t, ht, hpoints⟩ := ihl he.2.1 h
      exact ⟨t, by simp [Expr.tokens, ht], hpoints⟩
    · split at h
      · cases h
      · obtain ⟨t, ht, hpoints⟩ := ihr he.2.2 h
        exact ⟨t, by simp [Expr.tokens, ht], hpoints⟩
  | reference name =>
    intro store after error h
    rw [eval_reference] at h
    exact ⟨name, by simp [Expr.tokens], pointsAt_of_lookUp he h⟩
  | assign name value ih =>
    intro store after error h
    rw [eval_assign] at h
    rcases bind_eq_error h with h | ⟨v, between, -, h⟩
    · obtain ⟨t, ht, hpoints⟩ := ih he.2 h
      exact ⟨t, by simp [Expr.tokens, ht], hpoints⟩
    · exact ⟨name, by simp [Expr.tokens], pointsAt_of_overwrite he.1 h⟩

/-- What an expression fails with is explained by its tokens, and so is a failure to print its
value. -/
theorem Expr.blames_explained {tokens : List Token} {e : Expr} (he : e.WellKinded)
    (htokens : ∀ t ∈ e.tokens, t ∈ tokens) : e.Blames (RuntimeError.Explained tokens) where
  eval := by
    intro here store error after h
    obtain ⟨t, ht, hpoints⟩ := eval_pointsAt he h
    exact .inr ⟨t, htokens t ht, hpoints⟩
  print := by
    intro reason
    refine .inl ⟨reason, rfl, ?_⟩
    cases hline : e.line? with
    | none => exact .inl rfl
    | some line =>
      obtain ⟨t, ht, rfl⟩ := exists_token_of_line? hline
      exact .inr ⟨t, htokens t ht, rfl⟩

/-! ### Errors of sources -/

/-- **Errors point at tokens of the source.**  If the run of a source fails, on whatever machine,
then there is a token of the source, on the line of the error, that is to blame for it: a name that
was not found, a `+` between values that cannot be added, or another operator on something that is
no number.  The only other errors are failures of output; their line is that of some token, or
zero. -/
theorem errors_point_at_tokens {ω : Type} [Output ω] {rounds : Nat} {m : Machine ω}
    {source : String} {e : RuntimeError} (h : (m.run rounds source).outcome = .failed e) :
    e.Explained (scan source).tokens := by
  rcases check_cases source with ⟨-, program, hcheck⟩ | ⟨hfree, -⟩
  · rw [run_of_check hcheck] at h
    have hkinds := Stmt.AllWellKinded.exprs
      (Stmt.allWellKinded_iff.2 (parse?_wellKinded (check_eq_program_iff.1 hcheck).2))
    have hblames : Blames (RuntimeError.Explained (scan source).tokens)
        (interpret rounds program : ExecOn ω Unit) :=
      interpret_blames rounds
        (fun e he => e.blames_explained (hkinds e he) (mem_tokens_of_check hcheck e he))
        (fun reason => .inl ⟨reason, rfl, .inl rfl⟩)
    cases hresult : interpret rounds program m with
    | ok _ after => rw [hresult] at h; cases h
    | error stop after =>
      rw [hresult] at h
      cases stop with
      | outOfRounds => cases h
      | error error =>
        cases h
        exact hblames _ _ _ hresult
  · obtain ⟨errors, -, hrun⟩ : ∃ errors, errors ≠ [] ∧
      m.run rounds source = ⟨[], .rejected errors, m⟩ := run_of_errors hfree
    rw [hrun] at h
    cases h

/-- Inside a `for` loop, which has been built from other statements, a missing variable is found on
the line on which it stands. -/
theorem missing_step_explained :
    let source := "for (var i = 0;\n i < 1;\n i = i + step) print i;"
    let e : RuntimeError := ⟨.undefinedVariable "step", 3⟩
    ((Machine.new ({} : Sink)).run 2 source).outcome = .failed e ∧
      e.Explained (scan source).tokens :=
  have h : ((Machine.new ({} : Sink)).run 2
      "for (var i = 0;\n i < 1;\n i = i + step) print i;").outcome =
      .failed ⟨.undefinedVariable "step", 3⟩ := by decide +kernel
  ⟨h, errors_point_at_tokens h⟩

end Scriptlet
