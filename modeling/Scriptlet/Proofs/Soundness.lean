import Scriptlet.Proofs.EveryRule
import Scriptlet.Proofs.Grammar
import Scriptlet.Proofs.Progress

/-!
# What is read without a complaint is derivable

Each rule is followed along a reading that reports nothing, and the tokens that it takes are put
together to a derivation of its value.  No end of the source is needed for that: behind a stream the
last token is taken again and again, and the derivation has it as often (`Cursor.Takes`).

Two things need care.  An assignment is read target first, and only the equals sign behind it tells
that it is one; its target is then a bare name because anything else is reported
(`ExprDerivation.tokens_of_reference`).  And a statement that ends in an `if` without `else` is never
followed by an `else`, because the rule would have taken it (`Rule.ReadsStatement`).
-/

namespace Scriptlet

namespace Grammar

theorem has_iff_mem_operators (l : Level) (k : Kind) : l.has k = true ↔ k ∈ operators l := by
  cases k with
  | symbol s => cases l <;> cases s <;> simp [Level.has, operators]
  | keyword w => cases l <;> cases w <;> simp [Level.has, operators]
  | _ => cases l <;> simp [Level.has, operators]

theorem join_eq_node (l : Level) : l.join = node l := by
  cases l <;> rfl

theorem node_ne_reference (l : Level) (left right : Expr) (operator name : Token) :
    node l left operator right ≠ .reference name := by
  cases l <;> simp [node]

/-- The levels whose operators an expression of a rank can hold outside of parentheses. -/
def levelsOf : Rank → List Level
  | .expression | .level .or => Level.all
  | .level .and => [.and, .equality, .comparison, .term, .factor]
  | .level .equality => [.equality, .comparison, .term, .factor]
  | .level .comparison => [.comparison, .term, .factor]
  | .level .term => [.term, .factor]
  | .level .factor => [.factor]
  | .unary | .primary => []

theorem levelsOf_level (l : Level) : levelsOf (.level l) = l :: levelsOf (operandOf l) := by
  cases l <;> rfl

/-- A derivation of a bare variable is that variable and nothing else. -/
theorem ExprDerivation.tokens_of_reference {r : Rank} (d : ExprDerivation r) {name : Token}
    (h : d.tree = .reference name) :
    d.tokens = [name] ∧ ∃ text, name.kind = .identifier text := by
  induction d with
  | operand e ih | first e ih | bare e ih => exact ih h
  | more left operator right => exact absurd h (node_ne_reference _ _ _ _ _)
  | reference t =>
    obtain rfl : t.val = name := by simpa [tree] using h
    exact ⟨rfl, t.property⟩
  | _ => simp [tree] at h

end Grammar

namespace Rule

open Grammar

/-! ### Expected tokens -/

variable {α : Type} {e x u : Rule Expr} {c c' : Cursor}

/-- A token of a certain kind, and then the rest of the rule. -/
theorem expect_eq_done_nil {symbol : Symbol} {complaint : Complaint} {x : Rule α} {b : α}
    (h : (discard (expect (Kind.isSymbol symbol) complaint) >>= fun _ => x) c = .done b c' []) :
    ∃ (t : Tok (.symbol symbol)) (c₁ : Cursor), c.Takes [t.val] c₁ ∧ x c₁ = .done b c' [] := by
  rw [discard_bind, expect_bind] at h
  split at h
  · rename_i hk
    exact ⟨⟨_, Kind.eq_of_isSymbol hk⟩, _, Cursor.takes_next (Kind.isEnd_of_isSymbol hk), h⟩
  · cases h

/-- A token of a certain kind, and then the value. -/
theorem close_eq_done_nil {symbol : Symbol} {complaint : Complaint} {a b : α}
    (h : (discard (expect (Kind.isSymbol symbol) complaint) >>= fun _ => (pure a : Rule α)) c =
      .done b c' []) :
    b = a ∧ ∃ t : Tok (.symbol symbol), c.Takes [t.val] c' := by
  obtain ⟨t, c₁, htake, h⟩ := expect_eq_done_nil h
  cases h
  exact ⟨rfl, t, htake⟩

/-! ### Expressions -/

/-- What a rule reads without a complaint can be derived, with the same tree. -/
def ReadsOnly (x : Rule Expr) (r : Rank) : Prop :=
  ∀ c e c', x c = .done e c' [] → ∃ d : ExprDerivation r, d.tree = e ∧ c.Takes d.tokens c'

/-- A literal is derived by the production for its kind. -/
theorem exists_literal {t : Token} {v : Value} (h : t.kind.literal? = some v) :
    ∃ d : ExprDerivation .primary, d.tree = .literal v ∧ d.tokens = [t] := by
  cases hk : t.kind with
  | number y =>
    rw [hk] at h; cases h
    exact ⟨.number ⟨t, hk⟩, rfl, rfl⟩
  | string s =>
    rw [hk] at h; cases h
    exact ⟨.string ⟨t, hk⟩, rfl, rfl⟩
  | keyword w =>
    cases w with
    | true => rw [hk] at h; cases h; exact ⟨.true ⟨t, hk⟩, rfl, rfl⟩
    | false => rw [hk] at h; cases h; exact ⟨.false ⟨t, hk⟩, rfl, rfl⟩
    | nil => rw [hk] at h; cases h; exact ⟨.nil ⟨t, hk⟩, rfl, rfl⟩
    | _ => rw [hk] at h; cases h
  | _ => rw [hk] at h; cases h

theorem primary_readsOnly (he : e.ReadsOnly .expression) : (primary e).ReadsOnly .primary := by
  intro c v c' h
  cases hl : c.peek.kind.literal? with
  | some w =>
    rw [primary_of_literal e hl] at h
    cases h
    obtain ⟨d, htree, htokens⟩ := exists_literal hl
    refine ⟨d, htree, ?_⟩
    rw [htokens]
    exact Cursor.takes_next (Kind.isEnd_of_startsExpression (startsExpression_of_literal hl))
  | none =>
    by_cases hp : c.peek.kind = .symbol .leftParen
    · rw [primary_of_group e hp] at h
      have htake := Cursor.takes_next (c := c) (by rw [hp]; rfl)
      obtain ⟨inner, c₁, hinner, h⟩ := bind_eq_done_nil_iff.1 h
      obtain ⟨d, rfl, hd⟩ := he _ _ _ hinner
      obtain ⟨rfl, closing, hclosing⟩ := close_eq_done_nil h
      exact ⟨.group ⟨_, hp⟩ d closing, rfl, htake.trans (hd.trans hclosing)⟩
    · by_cases hn : c.peek.kind.isIdentifier = true
      · obtain ⟨name, hname⟩ := Kind.exists_of_isIdentifier hn
        rw [primary_of_name e hname] at h
        cases h
        exact ⟨.reference ⟨_, name, hname⟩, rfl, Cursor.takes_next (by rw [hname]; rfl)⟩
      · rw [primary_of_other e hl (by simpa using hn) hp] at h
        cases h

theorem unary_readsOnly (he : e.ReadsOnly .expression) : ∀ k, (unary e k).ReadsOnly .unary := by
  intro k
  induction k with
  | zero => intro c v c' h; cases h
  | succ k ih =>
    intro c v c' h
    by_cases hop : c.peek.kind = .symbol .bang ∨ c.peek.kind = .symbol .minus
    · rw [unary_of_operator e k hop] at h
      have htake := Cursor.takes_next (c := c) (by rcases hop with hop | hop <;> (rw [hop]; rfl))
      obtain ⟨operand, c₁, hoperand, h⟩ := bind_eq_done_nil_iff.1 h
      obtain ⟨d, rfl, hd⟩ := ih _ _ _ hoperand
      cases h
      have hmem : c.peek.kind ∈ unaryOperators := by
        rcases hop with hop | hop <;> simp [hop, unaryOperators]
      exact ⟨.unary ⟨_, hmem⟩ d, rfl, htake.trans hd⟩
    · rw [unary_of_other e k hop] at h
      obtain ⟨d, htree, hd⟩ := primary_readsOnly he c v c' h
      exact ⟨.bare d, htree, hd⟩

/-- A chain goes on with the derivation of what is on its left. -/
theorem chain_readsOnly {l : Level} (hx : x.ReadsOnly (operandOf l)) :
    ∀ k (c₀ c : Cursor) (left : ExprDerivation (.level l)) (v : Expr) (c' : Cursor),
      c₀.Takes left.tokens c → chain l x k left.tree c = .done v c' [] →
      ∃ d : ExprDerivation (.level l), d.tree = v ∧ c₀.Takes d.tokens c' := by
  intro k
  induction k with
  | zero => intro c₀ c left v c' _ h; cases h
  | succ k ih =>
    intro c₀ c left v c' hleft h
    rw [chain, peek_bind] at h
    split at h
    · rename_i hop
      have hmem := (has_iff_mem_operators l _).1 hop
      have htake := Cursor.takes_next (isEnd_of_has hop)
      rw [advance_bind] at h
      obtain ⟨right, c₁, hright, h⟩ := bind_eq_done_nil_iff.1 h
      obtain ⟨d, rfl, hd⟩ := hx _ _ _ hright
      rw [join_eq_node] at h
      exact ih c₀ c₁ (.more left ⟨_, hmem⟩ d) v c' (hleft.trans (htake.trans hd)) h
    · cases h
      exact ⟨left, rfl, hleft⟩

theorem level_readsOnly {l : Level} (k : Nat) (hx : x.ReadsOnly (operandOf l)) :
    Rule.ReadsOnly (x >>= fun left => chain l x k left) (.level l) := by
  intro c v c' h
  obtain ⟨left, c₁, hleft, h⟩ := bind_eq_done_nil_iff.1 h
  obtain ⟨d, rfl, hd⟩ := hx _ _ _ hleft
  exact chain_readsOnly hx k c c₁ (.first d) v c' hd h

theorem operand_readsOnly (k : Nat) (hu : u.ReadsOnly .unary) (l : Level) :
    (operand u k (levelsOf (.level l))).ReadsOnly (.level l) := by
  have hfactor := level_readsOnly (l := .factor) k hu
  have hterm := level_readsOnly (l := .term) k hfactor
  have hcomparison := level_readsOnly (l := .comparison) k hterm
  have hequality := level_readsOnly (l := .equality) k hcomparison
  have hand := level_readsOnly (l := .and) k hequality
  have hor := level_readsOnly (l := .or) k hand
  cases l with
  | or => exact hor
  | and => exact hand
  | equality => exact hequality
  | comparison => exact hcomparison
  | term => exact hterm
  | factor => exact hfactor

theorem assignTo_eq_done_nil {target value v : Expr} {equals : Token}
    (h : (assignTo target equals value : Rule Expr) c = .done v c' []) :
    ∃ name, target = .reference name ∧ v = .assign name value ∧ c' = c := by
  cases target with
  | reference name => cases h; exact ⟨name, rfl, rfl, rfl⟩
  | _ => cases h

/-- **Every expression that is read without a complaint is derivable.** -/
theorem expression_readsOnly (k : Nat) : (expression k).ReadsOnly .expression := by
  induction k with
  | zero => intro c v c' h; cases h
  | succ k ih =>
    intro c v c' h
    obtain ⟨target, c₁, htarget, h⟩ := bind_eq_done_nil_iff.1 h
    obtain ⟨d, rfl, hd⟩ := operand_readsOnly _ (unary_readsOnly ih _) .or _ _ _ htarget
    rw [peek_bind] at h
    split at h
    · rename_i heq
      have htake := Cursor.takes_next (Kind.isEnd_of_isSymbol heq)
      rw [advance_bind] at h
      obtain ⟨value, c₂, hvalue, h⟩ := bind_eq_done_nil_iff.1 h
      obtain ⟨dv, rfl, hdv⟩ := ih _ _ _ hvalue
      obtain ⟨name, href, rfl, rfl⟩ := assignTo_eq_done_nil h
      obtain ⟨htokens, hname⟩ := d.tokens_of_reference href
      rw [htokens] at hd
      exact ⟨.assign ⟨name, hname⟩ ⟨_, Kind.eq_of_isSymbol heq⟩ dv, rfl, hd.trans (htake.trans hdv)⟩
    · cases h
      exact ⟨.operand d, rfl, hd⟩

/-! ### Statements -/

/-- What a rule for statements reads without a complaint can be derived, with the same tree, and with
each `else` where it belongs.  If it ends in an `if` without `else`, none follows. -/
def ReadsStatement (s : Rule Stmt) : Prop :=
  ∀ c t c', s c = .done t c' [] →
    ∃ d : Derivation .statement, d.tree = t ∧ c.Takes d.tokens c' ∧ d.NearestElse ∧
      (d.endsOpen = true → c'.peek.kind ≠ .keyword .else)

variable {s : Rule Stmt}

/-- A declaration of a variable is derivable, once the word before it is known. -/
theorem varDeclaration_reads (he : e.ReadsOnly .expression) (start : Tok (.keyword .var)) {t : Stmt}
    (h : varDeclaration e c = .done t c' []) :
    ∃ d : VarDeclaration, d.tree = t ∧ ∃ ts, c.Takes ts c' ∧ d.tokens = start.val :: ts := by
  rw [varDeclaration, expect_bind] at h
  split at h
  swap
  · cases h
  rename_i hname
  have htake := Cursor.takes_next (Kind.isEnd_of_isIdentifier hname)
  rw [accept_bind] at h
  split at h
  · rename_i heq
    simp only [if_true, bind_map_left] at h
    have htake₁ := Cursor.takes_next (Kind.isEnd_of_isSymbol heq)
    obtain ⟨init, c₂, hinit, h⟩ := bind_eq_done_nil_iff.1 h
    obtain ⟨d, rfl, hd⟩ := he _ _ _ hinit
    obtain ⟨rfl, finish, hfinish⟩ := close_eq_done_nil h
    refine ⟨⟨start, ⟨_, Kind.exists_of_isIdentifier hname⟩,
      some (⟨_, Kind.eq_of_isSymbol heq⟩, d), finish⟩, rfl, _,
      htake.trans (htake₁.trans (hd.trans hfinish)), rfl⟩
  · simp only [Bool.false_eq_true, if_false, pure_bind] at h
    obtain ⟨rfl, finish, hfinish⟩ := close_eq_done_nil h
    exact ⟨⟨start, ⟨_, Kind.exists_of_isIdentifier hname⟩, none, finish⟩, rfl, _,
      htake.trans hfinish, rfl⟩

theorem expressionStatement_reads (he : e.ReadsOnly .expression) {t : Stmt}
    (h : expressionStatement e c = .done t c' []) :
    ∃ (d : Expression) (finish : Tok (.symbol .semicolon)), t = .expression d.tree ∧
      c.Takes (d.tokens ++ [finish.val]) c' := by
  obtain ⟨v, c₁, hv, h⟩ := bind_eq_done_nil_iff.1 h
  obtain ⟨d, rfl, hd⟩ := he _ _ _ hv
  obtain ⟨rfl, finish, hfinish⟩ := close_eq_done_nil h
  exact ⟨d, finish, rfl, hd.trans hfinish⟩

theorem printStatement_reads (he : e.ReadsOnly .expression) {t : Stmt}
    (h : printStatement e c = .done t c' []) :
    ∃ (d : Expression) (finish : Tok (.symbol .semicolon)), t = .print d.tree ∧
      c.Takes (d.tokens ++ [finish.val]) c' := by
  obtain ⟨v, c₁, hv, h⟩ := bind_eq_done_nil_iff.1 h
  obtain ⟨d, rfl, hd⟩ := he _ _ _ hv
  obtain ⟨rfl, finish, hfinish⟩ := close_eq_done_nil h
  exact ⟨d, finish, rfl, hd.trans hfinish⟩

theorem forInit_reads (he : e.ReadsOnly .expression) {t : Option Stmt}
    (h : forInit e c = .done t c' []) : ∃ d : ForInit, d.tree = t ∧ c.Takes d.tokens c' := by
  by_cases hsemi : c.peek.kind = .symbol .semicolon
  · rw [forInit_of_semicolon e hsemi] at h
    cases h
    exact ⟨.none ⟨_, hsemi⟩, rfl, Cursor.takes_next (by rw [hsemi]; rfl)⟩
  by_cases hvar : c.peek.kind = .keyword .var
  · rw [forInit_of_var e hvar, ← bind_pure_comp] at h
    obtain ⟨v, c₁, hv, h⟩ := bind_eq_done_nil_iff.1 h
    cases h
    have htake := Cursor.takes_next (c := c) (by rw [hvar]; rfl)
    obtain ⟨d, rfl, ts, hts, htokens⟩ := varDeclaration_reads he ⟨_, hvar⟩ hv
    refine ⟨.var d, rfl, ?_⟩
    rw [ForInit.tokens, htokens]
    exact htake.trans hts
  · rw [forInit_of_other e hsemi hvar, ← bind_pure_comp] at h
    obtain ⟨v, c₁, hv, h⟩ := bind_eq_done_nil_iff.1 h
    cases h
    obtain ⟨d, finish, rfl, hd⟩ := expressionStatement_reads he hv
    exact ⟨.expression d finish, rfl, hd⟩

/-- An expression that may be missing. -/
theorem clause_reads {missing : Kind → Bool} {f : Expr → α} {default a : α}
    (he : e.ReadsOnly .expression) (h : clause missing default (f <$> e) c = .done a c' []) :
    ∃ d : Option Expression, a = (d.map fun d => f d.tree).getD default ∧
      c.Takes (optionalTokens d) c' := by
  rw [clause] at h
  split at h
  · cases h
    exact ⟨none, rfl, .refl c⟩
  · rw [← bind_pure_comp] at h
    obtain ⟨v, c₁, hv, h⟩ := bind_eq_done_nil_iff.1 h
    cases h
    obtain ⟨d, rfl, hd⟩ := he _ _ _ hv
    exact ⟨some d, rfl, hd⟩

theorem counted_eq_forTree (init : Option Stmt) (condition : Option Expr) (increment : Option Expr)
    (body : Stmt) :
    Stmt.counted init (condition.getD (.literal (.boolean true))) increment body =
      forTree init condition increment body := by
  cases init <;> cases increment <;> rfl

/-- The derivation of a statement of which the first token has been taken: it ends where the reading
does, and it may be followed by what comes there. -/
def Continues (start : Token) (c : Cursor) (t : Stmt) (c' : Cursor) : Prop :=
  ∃ d : Derivation .statement, d.tree = t ∧ (∃ ts, c.Takes ts c' ∧ d.tokens = start :: ts) ∧
    d.NearestElse ∧ (d.endsOpen = true → c'.peek.kind ≠ .keyword .else)

theorem forStatement_reads (he : e.ReadsOnly .expression) (hs : s.ReadsStatement)
    (start : Tok (.keyword .for)) {t : Stmt} (h : forStatement e s c = .done t c' []) :
    Continues start c t c' := by
  rw [forStatement_eq] at h
  obtain ⟨opening, c₁, hopening, h⟩ := expect_eq_done_nil h
  obtain ⟨init, c₂, hinit, h⟩ := bind_eq_done_nil_iff.1 h
  obtain ⟨dinit, rfl, htinit⟩ := forInit_reads he hinit
  obtain ⟨condition, c₃, hcondition, h⟩ := bind_eq_done_nil_iff.1 h
  rw [← id_map e] at hcondition
  obtain ⟨dcondition, rfl, htcondition⟩ := clause_reads he hcondition
  obtain ⟨finish, c₄, hfinish, h⟩ := expect_eq_done_nil h
  obtain ⟨increment, c₅, hincrement, h⟩ := bind_eq_done_nil_iff.1 h
  obtain ⟨dincrement, rfl, htincrement⟩ := clause_reads he hincrement
  obtain ⟨closing, c₆, hclosing, h⟩ := expect_eq_done_nil h
  obtain ⟨body, c₇, hbody, h⟩ := bind_eq_done_nil_iff.1 h
  cases h
  have htake := hopening.trans (htinit.trans (htcondition.trans (hfinish.trans
    (htincrement.trans hclosing))))
  obtain ⟨dbody, rfl, htbody, hnearest, hopen⟩ := hs c₆ _ _ hbody
  refine ⟨.for start opening dinit dcondition finish dincrement closing dbody, ?_,
    ⟨_, htake.trans htbody, by simp [Derivation.tokens]⟩, hnearest, hopen⟩
  have hincr : (dincrement.map fun d => some d.tree).getD none = dincrement.map (·.tree) := by
    cases dincrement <;> rfl
  rw [hincr]
  exact (counted_eq_forTree _ (dcondition.map (·.tree)) _ _).symm

theorem ifStatement_reads (he : e.ReadsOnly .expression) (hs : s.ReadsStatement)
    (start : Tok (.keyword .if)) {t : Stmt} (h : ifStatement e s c = .done t c' []) :
    Continues start c t c' := by
  rw [ifStatement] at h
  obtain ⟨opening, c₁, hopening, h⟩ := expect_eq_done_nil h
  obtain ⟨condition, c₂, hcondition, h⟩ := bind_eq_done_nil_iff.1 h
  obtain ⟨dcondition, rfl, htcondition⟩ := he _ _ _ hcondition
  obtain ⟨closing, c₃, hclosing, h⟩ := expect_eq_done_nil h
  obtain ⟨yes, c₄, hyes, h⟩ := bind_eq_done_nil_iff.1 h
  have htake := hopening.trans (htcondition.trans hclosing)
  obtain ⟨dyes, rfl, htyes, hnearest, hopen⟩ := hs c₃ _ _ hyes
  rw [accept_bind] at h
  split at h
  · rename_i helse
    have hk := Kind.eq_of_isKeyword helse
    have htelse := Cursor.takes_next (Kind.isEnd_of_isKeyword helse)
    simp only [if_true, bind_map_left] at h
    obtain ⟨no, c₅, hno, h⟩ := bind_eq_done_nil_iff.1 h
    cases h
    obtain ⟨dno, rfl, htno, hnearest', hopen'⟩ := hs _ _ _ hno
    -- the branch before the `else` is closed: its rule would have taken the `else` itself
    have hclosed : dyes.endsOpen = false := by
      by_contra hyes
      exact hopen (by simpa using hyes) hk
    exact ⟨.ifElse start opening dcondition closing dyes ⟨_, hk⟩ dno, rfl,
      ⟨_, htake.trans (htyes.trans (htelse.trans htno)), by simp [Derivation.tokens]⟩,
      ⟨hclosed, hnearest, hnearest'⟩, hopen'⟩
  · rename_i helse
    simp only [Bool.false_eq_true, if_false, pure_bind] at h
    cases h
    refine ⟨.ifOnly start opening dcondition closing dyes, rfl,
      ⟨_, htake.trans htyes, by simp [Derivation.tokens]⟩, hnearest, fun _ hk => ?_⟩
    rw [hk] at helse
    exact helse rfl

theorem whileStatement_reads (he : e.ReadsOnly .expression) (hs : s.ReadsStatement)
    (start : Tok (.keyword .while)) {t : Stmt} (h : whileStatement e s c = .done t c' []) :
    Continues start c t c' := by
  rw [whileStatement] at h
  obtain ⟨opening, c₁, hopening, h⟩ := expect_eq_done_nil h
  obtain ⟨condition, c₂, hcondition, h⟩ := bind_eq_done_nil_iff.1 h
  obtain ⟨dcondition, rfl, htcondition⟩ := he _ _ _ hcondition
  obtain ⟨closing, c₃, hclosing, h⟩ := expect_eq_done_nil h
  obtain ⟨body, c₄, hbody, h⟩ := bind_eq_done_nil_iff.1 h
  cases h
  have htake := hopening.trans (htcondition.trans hclosing)
  obtain ⟨dbody, rfl, htbody, hnearest, hopen⟩ := hs c₃ _ _ hbody
  exact ⟨.while start opening dcondition closing dbody, rfl,
    ⟨_, htake.trans htbody, by simp [Derivation.tokens]⟩, hnearest, hopen⟩

/-! ### Programs -/

theorem unrecovered_reads (he : e.ReadsOnly .expression) (hs : s.ReadsStatement) {t : Stmt}
    (h : unrecovered e s c = .done t c' []) :
    ∃ d : Derivation .declaration, d.tree = t ∧ c.Takes d.tokens c' ∧ d.NearestElse := by
  rw [unrecovered] at h
  split at h
  · rename_i hvar
    have htake := Cursor.takes_next (Kind.isEnd_of_isKeyword hvar)
    obtain ⟨d, rfl, ts, hts, htokens⟩ :=
      varDeclaration_reads he ⟨_, Kind.eq_of_isKeyword hvar⟩ h
    refine ⟨.var d, rfl, ?_, trivial⟩
    rw [Derivation.tokens, htokens]
    exact htake.trans hts
  · obtain ⟨d, rfl, hd, hnearest, -⟩ := hs c _ _ h
    exact ⟨.statement d, rfl, hd, hnearest⟩

/-- A declaration that is read without a complaint was not recovered from. -/
theorem declaration_eq_done_nil {t : Option Stmt} (hx : Complains (unrecovered e s))
    (h : declaration e s c = .done t c' []) :
    ∃ v, t = some v ∧ unrecovered e s c = .done v c' [] := by
  rw [declaration_eq, recover_apply] at h
  cases hu : unrecovered e s c with
  | done v c₁ errors =>
    rw [hu] at h
    cases h
    exact ⟨v, rfl, rfl⟩
  | stuck c₁ errors =>
    rw [hu] at h
    cases h
    exact absurd rfl (hx.ne_nil hu)
  | endless => rw [hu] at h; cases h

theorem declarations_reads (he : e.ReadsOnly .expression) (hs : s.ReadsStatement)
    (hes : Complains (unrecovered e s)) (stop : Kind → Bool) :
    ∀ k c ts c', declarations stop (declaration e s) k c = .done ts c' [] →
      ∃ d : Derivation .program, d.tree = ts ∧ c.Takes d.tokens c' ∧ d.NearestElse ∧
        (c'.atEnd || stop c'.peek.kind) = true := by
  intro k
  induction k with
  | zero => intro c ts c' h; cases h
  | succ k ih =>
    intro c ts c' h
    rw [declarations, stopped_bind] at h
    split at h
    · rename_i hstop
      cases h
      exact ⟨.empty, rfl, .refl c, trivial, hstop⟩
    · obtain ⟨head, c₁, hhead, h⟩ := bind_eq_done_nil_iff.1 h
      obtain ⟨tail, c₂, htail, h⟩ := bind_eq_done_nil_iff.1 h
      cases h
      obtain ⟨v, rfl, hv⟩ := declaration_eq_done_nil hes hhead
      obtain ⟨d, rfl, hd, hnearest⟩ := unrecovered_reads he hs hv
      obtain ⟨ds, rfl, hds, hnearest', hstop⟩ := ih c₁ _ _ htail
      exact ⟨.cons d ds, rfl, hd.trans hds, ⟨hnearest, hnearest'⟩, hstop⟩

theorem block_reads (he : e.ReadsOnly .expression) (hs : s.ReadsStatement)
    (hes : Complains (unrecovered e s)) (start : Tok (.symbol .leftBrace)) {k : Nat} {t : Stmt}
    (h : block (declaration e s) k c = .done t c' []) : Continues start c t c' := by
  obtain ⟨body, c₁, hbody, h⟩ := bind_eq_done_nil_iff.1 h
  obtain ⟨d, rfl, hd, hnearest, -⟩ := declarations_reads he hs hes _ k c _ _ hbody
  obtain ⟨rfl, closing, hclosing⟩ := close_eq_done_nil h
  exact ⟨.block start d closing, rfl, ⟨_, hd.trans hclosing, rfl⟩, hnearest,
    by simp [Derivation.endsOpen]⟩

/-- **Every statement that is read without a complaint is derivable**, and its derivation puts each
`else` to the nearest `if`. -/
theorem statement_reads (he : e.ReadsOnly .expression)
    (hes : ∀ k, Complains (unrecovered e (statement e k))) :
    ∀ k, (statement e k).ReadsStatement := by
  intro k
  induction k with
  | zero => intro c t c' h; cases h
  | succ k hs =>
    intro c t c' h
    -- the first token is taken, and the rest is read by the rule for what it starts
    have step : c.peek.kind.isEnd = false → Continues c.peek c.next t c' →
        ∃ d : Derivation .statement, d.tree = t ∧ c.Takes d.tokens c' ∧ d.NearestElse ∧
          (d.endsOpen = true → c'.peek.kind ≠ .keyword .else) := by
      rintro hend ⟨d, htree, ⟨ts, hts, htokens⟩, hrest⟩
      refine ⟨d, htree, ?_, hrest⟩
      rw [htokens]
      exact (Cursor.takes_next hend).trans hts
    by_cases hfor : c.peek.kind = .keyword .for
    · rw [statement_of_for e hfor] at h
      exact step (by rw [hfor]; rfl) (forStatement_reads he hs ⟨_, hfor⟩ h)
    by_cases hif : c.peek.kind = .keyword .if
    · rw [statement_of_if e hif] at h
      exact step (by rw [hif]; rfl) (ifStatement_reads he hs ⟨_, hif⟩ h)
    by_cases hwhile : c.peek.kind = .keyword .while
    · rw [statement_of_while e hwhile] at h
      exact step (by rw [hwhile]; rfl) (whileStatement_reads he hs ⟨_, hwhile⟩ h)
    by_cases hblock : c.peek.kind = .symbol .leftBrace
    · rw [statement_of_block e hblock] at h
      exact step (by rw [hblock]; rfl) (block_reads he hs (hes k) ⟨_, hblock⟩ h)
    by_cases hprint : c.peek.kind = .keyword .print
    · rw [statement_of_print e k hprint] at h
      obtain ⟨d, finish, rfl, hd⟩ := printStatement_reads he h
      exact ⟨.print ⟨_, hprint⟩ d finish, rfl,
        (Cursor.takes_next (by rw [hprint]; rfl)).trans hd, trivial, by simp [Derivation.endsOpen]⟩
    · rw [statement_of_other e k (by simp [hfor, hif, hprint, hwhile, hblock])] at h
      obtain ⟨d, finish, rfl, hd⟩ := expressionStatement_reads he h
      exact ⟨.expression d finish, rfl, hd, trivial, by simp [Derivation.endsOpen]⟩

/-- **Every program that is read without a complaint is derivable**, up to the end of the source. -/
theorem program_reads {n : Nat} {ts : List Stmt}
    (h : (program n : Rule (List Stmt)) c = .done ts c' []) :
    ∃ d : Derivation .program, d.tree = ts ∧ c.Takes d.tokens c' ∧ d.NearestElse ∧
      c'.atEnd = true := by
  have he := expression_readsOnly n
  have hes := grammar_complains n
  obtain ⟨d, htree, hd, hnearest, hstop⟩ :=
    declarations_reads he (statement_reads he hes n) (hes n) _ n c ts c' h
  exact ⟨d, htree, hd, hnearest, by simpa using hstop⟩

end Rule

end Scriptlet
