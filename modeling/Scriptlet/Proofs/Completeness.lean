import Scriptlet.Proofs.Soundness

/-!
# What is derivable is read without a complaint

The other direction: the tokens of a derivation, followed by something that does not go on with
them, are read to its tree, and the cursor stops just behind them.  There is one lemma for each
production, and the induction over derivations puts them together.

What "does not go on" means depends on the rank of an expression: no operator of its level or of a
tighter one, and after a whole expression no equals sign (`Rule.Stops`).  A chain is read from its
left end while its derivation is unrolled from the right, so the lemma about chains does not say
what they are read to but how far the rule for them has come (`Rule.Reads`).

A program may have several derivations, and the parser finds the one with `NearestElse`.  It exists
whenever there is any: an `else` that belongs to a farther `if` can be handed on to the nearest one
(`Derivation.exists_nearestElse`).
-/

namespace Scriptlet

namespace Grammar

/-- Levels have no operator in common. -/
theorem has_of_mem_tighter {l l' : Level} {k : Kind} (hk : k ∈ operators l)
    (hl : l' ∈ levelsOf (operandOf l)) : l'.has k = false := by
  cases l <;> simp only [operandOf, levelsOf, List.mem_cons, List.not_mem_nil, or_false] at hl <;>
    simp only [operators, List.mem_cons, List.not_mem_nil, or_false] at hk <;>
    rcases hk with rfl | rfl | rfl | rfl <;> rcases hl with rfl | rfl | rfl | rfl | rfl <;> rfl

theorem ExprDerivation.exists_first {r : Rank} (d : ExprDerivation r) :
    ∃ t ts, d.tokens = t :: ts ∧ t.kind.startsExpression = Bool.true := by
  induction d with
  | assign name equal value =>
    obtain ⟨_, text, hk⟩ := name
    exact ⟨_, _, rfl, by rw [hk]; rfl⟩
  | operand e ih | first e ih | bare e ih => exact ih
  | more left operator right ih _ =>
    obtain ⟨t, ts, htokens, hstart⟩ := ih
    exact ⟨t, ts ++ operator.val :: right.tokens, by rw [tokens, htokens]; rfl, hstart⟩
  | unary operator e =>
    refine ⟨_, _, rfl, ?_⟩
    have hop := operator.property
    simp only [unaryOperators, List.mem_cons, List.not_mem_nil, or_false] at hop
    rcases hop with hop | hop <;> (rw [hop]; rfl)
  | reference name =>
    obtain ⟨_, text, hk⟩ := name
    exact ⟨_, _, rfl, by rw [hk]; rfl⟩
  | number t | string t | true t | false t | nil t => exact ⟨_, _, rfl, by rw [t.property]; rfl⟩
  | group opening e closing => exact ⟨_, _, rfl, by rw [opening.property]; rfl⟩

/-- A token with which a declaration can start. -/
def StartsDeclaration (t : Token) : Prop :=
  t.kind.isEnd = Bool.false ∧ t.kind ≠ .symbol .rightBrace ∧ t.kind ≠ .keyword .else

theorem startsDeclaration_of_eq {t : Token} {k : Kind} (ht : t.kind = k)
    (h : k.isEnd = Bool.false ∧ k ≠ .symbol .rightBrace ∧ k ≠ .keyword .else) :
    StartsDeclaration t := by
  rw [← ht] at h
  exact h

namespace Derivation

theorem exists_first_statement (d : Derivation .statement) :
    ∃ t ts, d.tokens = t :: ts ∧ StartsDeclaration t ∧ t.kind ≠ .keyword .var := by
  cases d with
  | expression e finish =>
    obtain ⟨t, ts, htokens, hstart⟩ := e.exists_first
    refine ⟨t, ts ++ [finish.val], by rw [tokens, htokens]; rfl,
      ⟨Kind.isEnd_of_startsExpression hstart, ?_, ?_⟩, ?_⟩ <;>
    · intro h; rw [h] at hstart; cases hstart
  | print start | block start | ifOnly start | ifElse start | «while» start | «for» start =>
    exact ⟨_, _, rfl, startsDeclaration_of_eq start.property (by simp [Kind.isEnd]),
      by simp [start.property]⟩

theorem exists_first_declaration (d : Derivation .declaration) :
    ∃ t ts, d.tokens = t :: ts ∧ StartsDeclaration t := by
  cases d with
  | var d => exact ⟨_, _, rfl, startsDeclaration_of_eq d.start.property (by simp [Kind.isEnd])⟩
  | statement s =>
    obtain ⟨t, ts, htokens, hstart, -⟩ := s.exists_first_statement
    exact ⟨t, ts, htokens, hstart⟩

end Derivation

end Grammar

namespace Rule

open Grammar

/-! ### Expressions -/

/-- A token that is not taken for a part of an expression of a certain rank before it. -/
def Stops (r : Rank) (c : Cursor) : Prop := ∀ l ∈ levelsOf r, l.has c.peek.kind = false

theorem stops_level {l : Level} {c : Cursor} :
    Stops (.level l) c ↔ l.has c.peek.kind = false ∧ Stops (operandOf l) c := by
  simp only [Stops, levelsOf_level, List.forall_mem_cons]

/-- The rule for an operand inside of an expression with bound `b + 1`. -/
def operandRule (b : Nat) (r : Rank) : Rule Expr :=
  operand (unary (expression b) (b + 1)) (b + 1) (levelsOf r)

theorem operandRule_level (b : Nat) (l : Level) :
    operandRule b (.level l) = (operandRule b (operandOf l) >>= fun left =>
      chain l (operandRule b (operandOf l)) (b + 1) left) := by
  simp only [operandRule, levelsOf_level, operand]

/-- How tokens are read that are derived as an expression of a certain rank. -/
def Reads : Rank → List Token → Expr → Prop
  | .expression, ts, e => ∀ k rest last, ts.length < k → Stops .expression ⟨rest, last⟩ →
    (Cursor.mk rest last).peek.kind ≠ .symbol .equal →
    (expression k : Rule Expr) ⟨ts ++ rest, last⟩ = .done e ⟨rest, last⟩ []
  | .level l, ts, e => ∀ b, ts.length ≤ b → ∃ j ≤ ts.length, ∀ m rest last,
    Stops (operandOf l) ⟨rest, last⟩ →
    (operandRule b (operandOf l) >>= fun left =>
      chain l (operandRule b (operandOf l)) (m + j) left) ⟨ts ++ rest, last⟩ =
    chain l (operandRule b (operandOf l)) m e ⟨rest, last⟩
  | .unary, ts, e => ∀ b k rest last, ts.length ≤ b → ts.length < k →
    (unary (expression b) k : Rule Expr) ⟨ts ++ rest, last⟩ = .done e ⟨rest, last⟩ []
  | .primary, ts, e => (∃ t us, ts = t :: us ∧ t.kind ∉ unaryOperators) ∧
    ∀ b rest last, ts.length ≤ b →
      (primary (expression b) : Rule Expr) ⟨ts ++ rest, last⟩ = .done e ⟨rest, last⟩ []

variable {b : Nat} {ts us rest : List Token} {last : Token} {v w : Expr} {l : Level}

theorem operandRule_of_reads_level (h : Reads (.level l) ts v) (hb : ts.length ≤ b)
    (hstop : Stops (.level l) ⟨rest, last⟩) :
    operandRule b (.level l) ⟨ts ++ rest, last⟩ = .done v ⟨rest, last⟩ [] := by
  obtain ⟨hno, hstop⟩ := stops_level.1 hstop
  obtain ⟨j, hj, hchain⟩ := h b hb
  obtain ⟨m, rfl⟩ : ∃ m, b = m + j := ⟨b - j, by omega⟩
  rw [operandRule_level, show m + j + 1 = m + 1 + j by omega, hchain (m + 1) rest last hstop, chain,
    peek_bind, hno]
  rfl

theorem operandRule_of_reads (h : Reads (operandOf l) ts v) (hb : ts.length ≤ b)
    (hstop : Stops (operandOf l) ⟨rest, last⟩) :
    operandRule b (operandOf l) ⟨ts ++ rest, last⟩ = .done v ⟨rest, last⟩ [] := by
  cases l with
  | factor => exact h b (b + 1) rest last hb (by omega)
  | or | and | equality | comparison | term => exact operandRule_of_reads_level h hb hstop

theorem reads_literal {t : Token} {x : Value} (h : t.kind.literal? = some x) :
    Reads .primary [t] (.literal x) := by
  refine ⟨⟨t, [], rfl, fun hop => ?_⟩, fun b rest last _ => ?_⟩
  · simp only [unaryOperators, List.mem_cons, List.not_mem_nil, or_false] at hop
    rcases hop with hop | hop <;> (rw [hop] at h; cases h)
  · have hend : t.kind.isEnd = false := by
      cases hk : t.kind <;> first | rfl | (rw [hk] at h; cases h)
    rw [List.singleton_append, primary_of_literal (expression b) (c := ⟨t :: rest, last⟩) h,
      Cursor.next_cons rest last hend]

theorem reads_reference (name : Name) : Reads .primary [name.val] (.reference name.val) := by
  obtain ⟨name, text, hk⟩ := name
  refine ⟨⟨name, [], rfl, by simp [hk, unaryOperators]⟩, fun b rest last _ => ?_⟩
  rw [List.singleton_append, primary_of_name (expression b) (c := ⟨name :: rest, last⟩) hk,
    Cursor.next_cons rest last (by rw [hk]; rfl)]
  rfl

theorem stops_of_close {k : Kind} (hk : k = .symbol .semicolon ∨ k = .symbol .rightParen)
    {c : Cursor} (hc : c.peek.kind = k) : Stops .expression c ∧ c.peek.kind ≠ .symbol .equal := by
  refine ⟨fun l _ => ?_, ?_⟩
  · rw [hc]
    rcases hk with rfl | rfl <;> cases l <;> rfl
  · rw [hc]
    rcases hk with rfl | rfl <;> simp

/-- An expected symbol that is there. -/
theorem expect_cons {α : Type} {s : Symbol} {complaint : Complaint} (t : Tok (.symbol s))
    (x : Rule α) (rest : List Token) (last : Token) :
    (discard (expect (Kind.isSymbol s) complaint) >>= fun _ => x) ⟨t.val :: rest, last⟩ =
      x ⟨rest, last⟩ := by
  have hk : Kind.isSymbol s t.val.kind = true := by rw [t.property]; simp [Kind.isSymbol]
  rw [discard_bind, expect_bind, Cursor.peek_cons, if_pos hk,
    Cursor.next_cons rest last (Kind.isEnd_of_isSymbol hk)]

theorem reads_group (opening : Tok (.symbol .leftParen)) (closing : Tok (.symbol .rightParen))
    (h : Reads .expression ts v) :
    Reads .primary (opening.val :: (ts ++ [closing.val])) (.grouping v) := by
  refine ⟨⟨_, _, rfl, by simp [opening.property, unaryOperators]⟩, fun b rest last hb => ?_⟩
  obtain ⟨hstop, hne⟩ := stops_of_close (.inr rfl)
    (c := ⟨closing.val :: rest, last⟩) closing.property
  simp only [List.length_cons, List.length_append] at hb
  have hinner := h b (closing.val :: rest) last (by omega) hstop hne
  rw [List.cons_append, primary_of_group (expression b)
    (c := ⟨opening.val :: _, last⟩) opening.property,
    Cursor.next_cons _ _ (by rw [opening.property]; rfl), List.append_assoc,
    List.singleton_append, bind_of_done hinner, expect_cons]
  rfl

theorem reads_bare (h : Reads .primary ts v) : Reads .unary ts v := by
  obtain ⟨⟨t, us, rfl, hop⟩, hprimary⟩ := h
  intro b k rest last hb hk
  obtain ⟨k, rfl⟩ : ∃ k', k = k' + 1 := ⟨k - 1, by omega⟩
  rw [unary_of_other]
  · exact hprimary b rest last hb
  · simpa [unaryOperators] using hop

theorem reads_unary (operator : OneOf unaryOperators) (h : Reads .unary ts v) :
    Reads .unary (operator.val :: ts) (.unary operator.val v) := by
  intro b k rest last hb hk
  simp only [List.length_cons] at hb hk
  obtain ⟨k, rfl⟩ : ∃ k', k = k' + 1 := ⟨k - 1, by omega⟩
  have hop := operator.property
  simp only [unaryOperators, List.mem_cons, List.not_mem_nil, or_false] at hop
  have hend : operator.val.kind.isEnd = false := by rcases hop with h | h <;> (rw [h]; rfl)
  rw [List.cons_append, unary_of_operator _ _ (c := ⟨operator.val :: _, last⟩) hop,
    Cursor.next_cons _ _ hend, bind_of_done (h b k rest last (by omega) (by omega))]
  rfl

theorem reads_first (h : Reads (operandOf l) ts v) : Reads (.level l) ts v := by
  intro b hb
  refine ⟨0, Nat.zero_le _, fun m rest last hstop => ?_⟩
  exact bind_of_done (operandRule_of_reads h hb hstop)

theorem reads_more (operator : OneOf (operators l)) (hleft : Reads (.level l) ts v)
    (hright : Reads (operandOf l) us w) :
    Reads (.level l) (ts ++ operator.val :: us) (node l v operator.val w) := by
  intro b hb
  simp only [List.length_append, List.length_cons] at hb
  obtain ⟨j, hj, hchain⟩ := hleft b (by omega)
  refine ⟨j + 1, by rw [List.length_append, List.length_cons]; omega, fun m rest last hstop => ?_⟩
  have hop : Stops (operandOf l) ⟨operator.val :: (us ++ rest), last⟩ :=
    fun l' hl' => has_of_mem_tighter operator.property hl'
  have hhas : l.has operator.val.kind = true := (has_iff_mem_operators _ _).2 operator.property
  rw [List.append_assoc, List.cons_append, show m + (j + 1) = m + 1 + j by omega,
    hchain (m + 1) _ last hop, chain, peek_bind, Cursor.peek_cons, if_pos hhas, advance_bind,
    Cursor.next_cons _ _ (isEnd_of_has hhas),
    bind_of_done (operandRule_of_reads hright (by omega) hstop), join_eq_node]
  rfl

theorem reads_operand (h : Reads (.level .or) ts v) : Reads .expression ts v := by
  intro k rest last hk hstop hne
  obtain ⟨b, rfl⟩ : ∃ b, k = b + 1 := ⟨k - 1, by omega⟩
  have htarget := operandRule_of_reads_level (b := b) h (by omega) hstop
  have hno : (Cursor.mk rest last).peek.kind.isSymbol .equal = false := by
    by_contra heq
    exact hne (Kind.eq_of_isSymbol (by simpa using heq))
  rw [expression]
  refine (bind_of_done htarget).trans ?_
  rw [peek_bind, hno]
  rfl

theorem reads_assign (name : Name) (equal : Tok (.symbol .equal)) (h : Reads .expression ts v) :
    Reads .expression (name.val :: equal.val :: ts) (.assign name.val v) := by
  intro k rest last hk hstop hne
  simp only [List.length_cons] at hk
  obtain ⟨b, rfl⟩ : ∃ b, k = b + 1 := ⟨k - 1, by omega⟩
  -- the name is read as an operand first; the equals sign stops it at every level
  have hname : Reads (.level .or) [name.val] (.reference name.val) :=
    reads_first <| reads_first (l := .and) <| reads_first (l := .equality) <|
      reads_first (l := .comparison) <| reads_first (l := .term) <| reads_first (l := .factor) <|
      reads_bare <| reads_reference name
  have hequal : Stops (.level .or) ⟨equal.val :: (ts ++ rest), last⟩ := by
    intro l _
    rw [Cursor.peek_cons, equal.property]
    cases l <;> rfl
  have htarget := operandRule_of_reads_level (b := b) hname
    (by rw [List.length_singleton]; omega) hequal
  have his : Kind.isSymbol .equal equal.val.kind = true := by
    rw [equal.property]; simp [Kind.isSymbol]
  rw [expression]
  refine (bind_of_done htarget).trans ?_
  rw [peek_bind, Cursor.peek_cons, if_pos his, advance_bind,
    Cursor.next_cons _ _ (Kind.isEnd_of_isSymbol his),
    bind_of_done (h b rest last (by omega) hstop hne)]
  rfl

/-- **Every derivable expression is read to its tree.** -/
theorem reads_tree {r : Rank} (d : ExprDerivation r) : Reads r d.tokens d.tree := by
  induction d with
  | assign name equal value ih => exact reads_assign name equal ih
  | operand e ih => exact reads_operand ih
  | first e ih => exact reads_first ih
  | more left operator right ihl ihr => exact reads_more operator ihl ihr
  | unary operator e ih => exact reads_unary operator ih
  | bare e ih => exact reads_bare ih
  | number t | string t | true t | false t | nil t =>
    exact reads_literal (by rw [t.property]; rfl)
  | reference name => exact reads_reference name
  | group opening e closing ih => exact reads_group opening closing ih

theorem expression_of_derivation (d : Expression) {k : Nat} (hk : d.tokens.length < k) {t : Token}
    (ht : t.kind = .symbol .semicolon ∨ t.kind = .symbol .rightParen) (rest : List Token)
    (last : Token) :
    (expression k : Rule _) ⟨d.tokens ++ t :: rest, last⟩ = .done d.tree ⟨t :: rest, last⟩ [] := by
  obtain ⟨hstop, hne⟩ := stops_of_close ht (c := ⟨t :: rest, last⟩) rfl
  exact reads_tree d k (t :: rest) last hk hstop hne

/-! ### Parts of statements -/

theorem varDeclaration_of_derivation (d : VarDeclaration) {k : Nat} (hk : d.tokens.length < k)
    (rest : List Token) (last : Token) :
    (varDeclaration (expression k) : Rule Stmt)
      ⟨d.name.val :: (VarDeclaration.initTokens d.init ++ d.finish.val :: rest), last⟩ =
        .done d.tree ⟨rest, last⟩ [] := by
  obtain ⟨start, ⟨name, hname⟩, init, finish⟩ := d
  have hid : name.kind.isIdentifier = true := by
    obtain ⟨text, htext⟩ := hname
    rw [htext]; rfl
  rw [varDeclaration, expect_bind, Cursor.peek_cons, if_pos hid,
    Cursor.next_cons _ _ (Kind.isEnd_of_isIdentifier hid), accept_bind]
  cases init with
  | none =>
    have hno : Kind.isSymbol .equal finish.val.kind = false := by rw [finish.property]; rfl
    simp only [VarDeclaration.initTokens, List.nil_append, Cursor.peek_cons, hno,
      Bool.false_eq_true, if_false, pure_bind]
    exact expect_cons finish _ rest last
  | some init =>
    obtain ⟨equal, e⟩ := init
    have hyes : Kind.isSymbol .equal equal.val.kind = true := by
      rw [equal.property]; simp [Kind.isSymbol]
    have hlen : e.tokens.length < k := by
      simp only [VarDeclaration.tokens, VarDeclaration.initTokens, List.length_cons,
        List.length_append] at hk
      omega
    simp only [VarDeclaration.initTokens, List.cons_append, Cursor.peek_cons, hyes, if_true,
      Cursor.next_cons _ _ (Kind.isEnd_of_isSymbol hyes), bind_map_left]
    rw [bind_of_done (expression_of_derivation e hlen (.inl finish.property) rest last)]
    exact expect_cons finish _ rest last

theorem expressionStatement_of_derivation (d : Expression) (finish : Tok (.symbol .semicolon))
    {k : Nat} (hk : d.tokens.length < k) (rest : List Token) (last : Token) :
    (expressionStatement (expression k) : Rule Stmt) ⟨d.tokens ++ finish.val :: rest, last⟩ =
      .done (.expression d.tree) ⟨rest, last⟩ [] := by
  rw [expressionStatement,
    bind_of_done (expression_of_derivation d hk (.inl finish.property) rest last)]
  exact expect_cons finish _ rest last

theorem printStatement_of_derivation (d : Expression) (finish : Tok (.symbol .semicolon))
    {k : Nat} (hk : d.tokens.length < k) (rest : List Token) (last : Token) :
    (printStatement (expression k) : Rule Stmt) ⟨d.tokens ++ finish.val :: rest, last⟩ =
      .done (.print d.tree) ⟨rest, last⟩ [] := by
  rw [printStatement, bind_of_done (expression_of_derivation d hk (.inl finish.property) rest last)]
  exact expect_cons finish _ rest last

theorem forInit_of_derivation (d : ForInit) {k : Nat} (hk : d.tokens.length < k)
    (rest : List Token) (last : Token) :
    (forInit (expression k) : Rule _) ⟨d.tokens ++ rest, last⟩ = .done d.tree ⟨rest, last⟩ [] := by
  cases d with
  | none finish =>
    rw [forInit_of_semicolon _ (c := ⟨ForInit.tokens (.none finish) ++ rest, last⟩) finish.property]
    exact congrArg (Reading.done none · [])
      (Cursor.next_cons rest last (by rw [finish.property]; rfl))
  | var d =>
    rw [forInit_of_var _ (c := ⟨ForInit.tokens (.var d) ++ rest, last⟩) d.start.property,
      ← bind_pure_comp]
    have hnext : Cursor.next ⟨ForInit.tokens (.var d) ++ rest, last⟩ =
        ⟨d.name.val :: (VarDeclaration.initTokens d.init ++ d.finish.val :: rest), last⟩ := by
      simp only [ForInit.tokens, VarDeclaration.tokens, List.cons_append, List.append_assoc,
        List.nil_append]
      exact Cursor.next_cons _ _ (by rw [d.start.property]; rfl)
    rw [hnext, bind_of_done (varDeclaration_of_derivation d hk rest last)]
    rfl
  | expression e finish =>
    obtain ⟨t, ts, htokens, hstart⟩ := e.exists_first
    have hpeek : (Cursor.mk (ForInit.tokens (.expression e finish) ++ rest) last).peek = t := by
      rw [ForInit.tokens, htokens]; rfl
    have hlen : e.tokens.length < k := by
      simp only [ForInit.tokens, List.length_append] at hk
      omega
    rw [forInit_of_other, ← bind_pure_comp]
    · rw [ForInit.tokens, List.append_assoc, List.singleton_append,
        bind_of_done (expressionStatement_of_derivation e finish hlen rest last)]
      rfl
    · rw [hpeek]; rintro h; rw [h] at hstart; cases hstart
    · rw [hpeek]; rintro h; rw [h] at hstart; cases hstart

/-- A clause that may be missing is read up to the token behind it. -/
theorem clause_of_derivation {α : Type} (d : Option Expression) {s : Symbol} (f : Expr → α)
    (default : α) {k : Nat} (hk : (optionalTokens d).length < k) (t : Tok (.symbol s))
    (ht : s = .semicolon ∨ s = .rightParen) (rest : List Token) (last : Token) :
    clause (Kind.isSymbol s) default (f <$> expression k) ⟨optionalTokens d ++ t.val :: rest, last⟩ =
      .done ((d.map fun d => f d.tree).getD default) ⟨t.val :: rest, last⟩ [] := by
  cases d with
  | none =>
    have hyes : Kind.isSymbol s t.val.kind = true := by rw [t.property]; simp [Kind.isSymbol]
    rw [clause, optionalTokens, List.nil_append, Cursor.peek_cons, if_pos hyes]
    rfl
  | some e =>
    obtain ⟨u, us, htokens, hstart⟩ := e.exists_first
    have hno : ¬ Kind.isSymbol s u.kind = true := by
      intro h
      rw [Kind.eq_of_isSymbol h] at hstart
      rcases ht with rfl | rfl <;> cases hstart
    have hclose : t.val.kind = .symbol .semicolon ∨ t.val.kind = .symbol .rightParen := by
      rw [t.property]; simpa using ht
    have hread := expression_of_derivation e hk hclose rest last
    rw [clause, optionalTokens, if_neg, ← bind_pure_comp, bind_of_done hread]
    · rfl
    · rw [htokens]; exact hno

/-! ### Statements -/

/-- How tokens are read that are derived as a program: their declarations are read first, and then
what is behind them, which is no `else`. -/
def ReadsProgram (ts : List Token) (t : List Stmt) : Prop :=
  ∀ n k stop, ts.length < k → k ≤ n → (∀ kind, stop kind = true → kind = .symbol .rightBrace) →
    ∃ j ≤ ts.length, ∀ m rest last more c errors,
      (Cursor.mk rest last).peek.kind ≠ .keyword .else →
      (declarations stop (declaration (expression n) (statement (expression n) k)) m : Rule _)
        ⟨rest, last⟩ = .done more c errors →
      (declarations stop (declaration (expression n) (statement (expression n) k)) (m + j) : Rule _)
        ⟨ts ++ rest, last⟩ = .done (t ++ more) c errors

/-- How tokens are read that are derived as a statement or as a program.  The flag says whether they
end in an `if` that an `else` behind them would belong to. -/
def ReadsPhrase : (p : Phrase) → List Token → p.Tree → Bool → Prop
  | .statement, ts, t, isOpen => ∀ n k rest last, ts.length < k → k ≤ n →
    (isOpen = true → (Cursor.mk rest last).peek.kind ≠ .keyword .else) →
    (statement (expression n) k : Rule Stmt) ⟨ts ++ rest, last⟩ = .done t ⟨rest, last⟩ []
  | .declaration, ts, t, isOpen => ∀ n k rest last, ts.length < k → k ≤ n →
    (isOpen = true → (Cursor.mk rest last).peek.kind ≠ .keyword .else) →
    unrecovered (expression n) (statement (expression n) k) ⟨ts ++ rest, last⟩ =
      .done t ⟨rest, last⟩ []
  | .program, ts, t, _ => ReadsProgram ts t

theorem readsPhrase_var (d : VarDeclaration) : ReadsPhrase .declaration d.tokens d.tree false := by
  intro n k rest last hk hn _
  have hvar : Kind.isKeyword .var d.start.val.kind = true := by
    rw [d.start.property]; simp [Kind.isKeyword]
  simp only [VarDeclaration.tokens, List.cons_append, List.append_assoc, List.nil_append]
  rw [unrecovered, Cursor.peek_cons, if_pos hvar,
    Cursor.next_cons _ _ (Kind.isEnd_of_isKeyword hvar)]
  exact varDeclaration_of_derivation d (by omega) rest last

theorem readsPhrase_statement (d : Derivation .statement) {isOpen : Bool}
    (h : ReadsPhrase .statement d.tokens d.tree isOpen) :
    ReadsPhrase .declaration d.tokens d.tree isOpen := by
  intro n k rest last hk hn helse
  obtain ⟨t, ts, htokens, -, hvar⟩ := d.exists_first_statement
  rw [unrecovered, if_neg]
  · exact h n k rest last hk hn helse
  · rw [htokens]
    intro hkey
    exact hvar (Kind.eq_of_isKeyword hkey)

theorem readsProgram_empty : ReadsProgram [] [] :=
  fun _ _ _ _ _ _ => ⟨0, Nat.le_refl 0, fun _ _ _ _ _ _ _ h => h⟩

/-- What follows a declaration is another one or what is behind all of them, and never an `else`. -/
theorem peek_ne_else (d : Derivation .program) {rest : List Token} {last : Token}
    (h : (Cursor.mk rest last).peek.kind ≠ .keyword .else) :
    (Cursor.mk (d.tokens ++ rest) last).peek.kind ≠ .keyword .else := by
  cases d with
  | empty => exact h
  | cons d ds =>
    obtain ⟨t, ts, htokens, -, -, helse⟩ := d.exists_first_declaration
    rw [Derivation.tokens, htokens]
    exact helse

theorem readsProgram_cons (d : Derivation .declaration) (ds : Derivation .program)
    (h : ReadsPhrase .declaration d.tokens d.tree d.endsOpen)
    (hs : ReadsProgram ds.tokens ds.tree) :
    ReadsProgram (d.tokens ++ ds.tokens) (Derivation.cons d ds).tree := by
  intro n k stop hk hn hbrace
  rw [List.length_append] at hk
  obtain ⟨t, ts, htokens, hstart⟩ := d.exists_first_declaration
  have hpos : 0 < d.tokens.length := by rw [htokens]; simp
  obtain ⟨j, hj, hread⟩ := hs n k stop (by omega) hn hbrace
  refine ⟨j + 1, by rw [List.length_append]; omega, fun m rest last more c errors helse hmore => ?_⟩
  have hgo : ((Cursor.mk (d.tokens ++ (ds.tokens ++ rest)) last).atEnd ||
      stop (Cursor.mk (d.tokens ++ (ds.tokens ++ rest)) last).peek.kind) = false := by
    rw [htokens, Bool.or_eq_false_iff]
    refine ⟨hstart.1, ?_⟩
    by_contra hstop
    exact hstart.2.1 (hbrace _ (by simpa using hstop))
  have hhead : (declaration (expression n) (statement (expression n) k) : Rule _)
      ⟨d.tokens ++ (ds.tokens ++ rest), last⟩ =
        .done (some d.tree) ⟨ds.tokens ++ rest, last⟩ [] := by
    rw [declaration_eq, recover_apply,
      h n k _ last (by omega) hn fun _ => peek_ne_else ds helse]
  rw [List.append_assoc]
  exact declarations_of_done hgo hhead (hread m rest last more c errors helse hmore)

/-- A program is read up to where something stops it. -/
theorem ReadsProgram.declarations {ts : List Token} {t : List Stmt} (h : ReadsProgram ts t)
    {n k m : Nat} {stop : Kind → Bool} (hk : ts.length < k) (hn : k ≤ n) (hm : ts.length < m)
    (hbrace : ∀ kind, stop kind = true → kind = .symbol .rightBrace) {rest : List Token}
    {last : Token} (helse : (Cursor.mk rest last).peek.kind ≠ .keyword .else)
    (hstop : ((Cursor.mk rest last).atEnd || stop (Cursor.mk rest last).peek.kind) = true) :
    (declarations stop (declaration (expression n) (statement (expression n) k)) m : Rule _)
      ⟨ts ++ rest, last⟩ = .done t ⟨rest, last⟩ [] := by
  obtain ⟨j, hj, hread⟩ := h n k stop hk hn hbrace
  obtain ⟨m, rfl⟩ := Nat.exists_eq_add_of_le' (Nat.le_trans hj (Nat.le_of_lt hm))
  have hend := declarations_of_stopped (declaration (expression n) (statement (expression n) k))
    (show 0 < m by omega) hstop
  rw [hread m rest last [] _ [] helse hend, List.append_nil]

section Productions

variable {n k : Nat} {rest : List Token} {last : Token}

theorem readsPhrase_expression (e : Expression) (finish : Tok (.symbol .semicolon)) :
    ReadsPhrase .statement (Derivation.expression e finish).tokens
      (Derivation.expression e finish).tree false := by
  intro n k rest last hk hn _
  obtain ⟨t, ts, htokens, hstart⟩ := e.exists_first
  simp only [Derivation.tokens, List.length_append, List.length_singleton] at hk
  obtain ⟨k, rfl⟩ : ∃ k', k = k' + 1 := ⟨k - 1, by omega⟩
  have hpeek : (Cursor.mk (Derivation.tokens (.expression e finish) ++ rest) last).peek = t := by
    rw [Derivation.tokens, htokens]; rfl
  rw [statement_of_other]
  · rw [Derivation.tokens, List.append_assoc, List.singleton_append]
    exact expressionStatement_of_derivation e finish (by omega) rest last
  · rw [hpeek]
    intro hmem
    simp only [List.mem_cons, List.not_mem_nil, or_false] at hmem
    rcases hmem with h | h | h | h | h <;> (rw [h] at hstart; cases hstart)

theorem readsPhrase_print (start : Tok (.keyword .print)) (e : Expression)
    (finish : Tok (.symbol .semicolon)) :
    ReadsPhrase .statement (Derivation.print start e finish).tokens
      (Derivation.print start e finish).tree false := by
  intro n k rest last hk hn _
  simp only [Derivation.tokens, List.length_cons, List.length_append] at hk
  obtain ⟨k, rfl⟩ : ∃ k', k = k' + 1 := ⟨k - 1, by omega⟩
  simp only [Derivation.tokens, List.cons_append, List.append_assoc, List.nil_append]
  rw [statement_of_print _ _ (c := ⟨start.val :: _, last⟩) start.property,
    Cursor.next_cons _ _ (by rw [start.property]; rfl)]
  exact printStatement_of_derivation e finish (by omega) rest last

theorem readsPhrase_block (opening : Tok (.symbol .leftBrace)) (body : Derivation .program)
    (closing : Tok (.symbol .rightBrace)) (h : ReadsProgram body.tokens body.tree) :
    ReadsPhrase .statement (Derivation.block opening body closing).tokens
      (Derivation.block opening body closing).tree false := by
  intro n k rest last hk hn _
  simp only [Derivation.tokens, List.length_cons, List.length_append] at hk
  obtain ⟨k, rfl⟩ : ∃ k', k = k' + 1 := ⟨k - 1, by omega⟩
  simp only [Derivation.tokens, List.cons_append, List.append_assoc, List.nil_append]
  rw [statement_of_block _ (c := ⟨opening.val :: _, last⟩) opening.property,
    Cursor.next_cons _ _ (by rw [opening.property]; rfl)]
  have hclose : (Cursor.mk (closing.val :: rest) last).peek.kind = .symbol .rightBrace :=
    closing.property
  have hbody : (declarations (Kind.isSymbol .rightBrace)
      (declaration (expression n) (statement (expression n) k)) (k + 1) : Rule _)
      ⟨body.tokens ++ closing.val :: rest, last⟩ = .done body.tree ⟨closing.val :: rest, last⟩ [] :=
    h.declarations (by omega) (by omega) (by omega) (fun _ => Kind.eq_of_isSymbol)
      (by rw [hclose]; simp) (by rw [hclose]; simp [Kind.isSymbol])
  exact (bind_of_done hbody).trans (expect_cons closing _ rest last)

theorem readsPhrase_while (start : Tok (.keyword .while)) (opening : Tok (.symbol .leftParen))
    (condition : Expression) (closing : Tok (.symbol .rightParen)) (body : Derivation .statement)
    (h : ReadsPhrase .statement body.tokens body.tree body.endsOpen) :
    ReadsPhrase .statement (Derivation.while start opening condition closing body).tokens
      (Derivation.while start opening condition closing body).tree body.endsOpen := by
  intro n k rest last hk hn helse
  simp only [Derivation.tokens, List.length_cons, List.length_append] at hk
  obtain ⟨k, rfl⟩ : ∃ k', k = k' + 1 := ⟨k - 1, by omega⟩
  simp only [Derivation.tokens, List.cons_append, List.append_assoc]
  rw [statement_of_while _ (c := ⟨start.val :: _, last⟩) start.property,
    Cursor.next_cons _ _ (by rw [start.property]; rfl), whileStatement, expect_cons,
    bind_of_done (expression_of_derivation condition (by omega) (.inr closing.property) _ last),
    expect_cons, bind_of_done (h n k rest last (by omega) (by omega) helse)]
  rfl

theorem readsPhrase_ifOnly (start : Tok (.keyword .if)) (opening : Tok (.symbol .leftParen))
    (condition : Expression) (closing : Tok (.symbol .rightParen)) (yes : Derivation .statement)
    (h : ReadsPhrase .statement yes.tokens yes.tree yes.endsOpen) :
    ReadsPhrase .statement (Derivation.ifOnly start opening condition closing yes).tokens
      (Derivation.ifOnly start opening condition closing yes).tree true := by
  intro n k rest last hk hn helse
  simp only [Derivation.tokens, List.length_cons, List.length_append] at hk
  obtain ⟨k, rfl⟩ : ∃ k', k = k' + 1 := ⟨k - 1, by omega⟩
  have hno : Kind.isKeyword .else (Cursor.mk rest last).peek.kind = false := by
    by_contra hkey
    exact helse rfl (Kind.eq_of_isKeyword (by simpa using hkey))
  simp only [Derivation.tokens, List.cons_append, List.append_assoc]
  rw [statement_of_if _ (c := ⟨start.val :: _, last⟩) start.property,
    Cursor.next_cons _ _ (by rw [start.property]; rfl), ifStatement, expect_cons,
    bind_of_done (expression_of_derivation condition (by omega) (.inr closing.property) _ last),
    expect_cons, bind_of_done (h n k rest last (by omega) (by omega) fun _ => helse rfl),
    accept_bind, hno]
  rfl

theorem readsPhrase_ifElse (start : Tok (.keyword .if)) (opening : Tok (.symbol .leftParen))
    (condition : Expression) (closing : Tok (.symbol .rightParen)) (yes : Derivation .statement)
    (otherwise : Tok (.keyword .else)) (no : Derivation .statement)
    (h : ReadsPhrase .statement yes.tokens yes.tree yes.endsOpen) (hclosed : yes.endsOpen = false)
    (h' : ReadsPhrase .statement no.tokens no.tree no.endsOpen) :
    ReadsPhrase .statement
      (Derivation.ifElse start opening condition closing yes otherwise no).tokens
      (Derivation.ifElse start opening condition closing yes otherwise no).tree no.endsOpen := by
  intro n k rest last hk hn helse
  simp only [Derivation.tokens, List.length_cons, List.length_append] at hk
  obtain ⟨k, rfl⟩ : ∃ k', k = k' + 1 := ⟨k - 1, by omega⟩
  have hyes : Kind.isKeyword .else otherwise.val.kind = true := by
    rw [otherwise.property]; simp [Kind.isKeyword]
  simp only [Derivation.tokens, List.cons_append, List.append_assoc]
  rw [statement_of_if _ (c := ⟨start.val :: _, last⟩) start.property,
    Cursor.next_cons _ _ (by rw [start.property]; rfl), ifStatement, expect_cons,
    bind_of_done (expression_of_derivation condition (by omega) (.inr closing.property) _ last),
    expect_cons, bind_of_done (h n k _ last (by omega) (by omega) (by simp [hclosed])),
    accept_bind, Cursor.peek_cons, if_pos hyes,
    Cursor.next_cons _ _ (Kind.isEnd_of_isKeyword hyes)]
  simp only [if_true, bind_map_left]
  rw [bind_of_done (h' n k rest last (by omega) (by omega) helse)]
  rfl

theorem readsPhrase_for (start : Tok (.keyword .for)) (opening : Tok (.symbol .leftParen))
    (init : ForInit) (condition : Option Expression) (finish : Tok (.symbol .semicolon))
    (increment : Option Expression) (closing : Tok (.symbol .rightParen))
    (body : Derivation .statement) (h : ReadsPhrase .statement body.tokens body.tree body.endsOpen) :
    ReadsPhrase .statement
      (Derivation.for start opening init condition finish increment closing body).tokens
      (Derivation.for start opening init condition finish increment closing body).tree
      body.endsOpen := by
  intro n k rest last hk hn helse
  simp only [Derivation.tokens, List.length_cons, List.length_append] at hk
  obtain ⟨k, rfl⟩ : ∃ k', k = k' + 1 := ⟨k - 1, by omega⟩
  have hcond := clause_of_derivation condition id (.literal (.boolean true)) (k := n) (by omega)
    finish (.inl rfl) (optionalTokens increment ++ closing.val :: (body.tokens ++ rest)) last
  have hincr := clause_of_derivation increment some none (k := n) (by omega) closing (.inr rfl)
    (body.tokens ++ rest) last
  rw [id_map] at hcond
  simp only [Derivation.tokens, List.cons_append, List.append_assoc]
  rw [statement_of_for _ (c := ⟨start.val :: _, last⟩) start.property,
    Cursor.next_cons _ _ (by rw [start.property]; rfl), forStatement_eq, expect_cons,
    bind_of_done (forInit_of_derivation init (by omega) _ last), bind_of_done hcond, expect_cons,
    bind_of_done hincr, expect_cons, bind_of_done (h n k rest last (by omega) (by omega) helse)]
  refine congrArg (Reading.done · ⟨rest, last⟩ []) ?_
  have hmap : (increment.map fun d => some d.tree).getD none = increment.map (·.tree) := by
    cases increment <;> rfl
  rw [hmap]
  exact counted_eq_forTree _ (condition.map (·.tree)) _ _

end Productions

/-- **Every derivation with the nearest `else` is read to its tree.** -/
theorem readsPhrase_tree {p : Phrase} (d : Derivation p) (hd : d.NearestElse) :
    ReadsPhrase p d.tokens d.tree d.endsOpen := by
  induction d with
  | empty => exact readsProgram_empty
  | cons d ds ih ihs => exact readsProgram_cons d ds (ih hd.1) (ihs hd.2)
  | var d => exact readsPhrase_var d
  | statement s ih => exact readsPhrase_statement s (ih hd)
  | expression e finish => exact readsPhrase_expression e finish
  | print start e finish => exact readsPhrase_print start e finish
  | block opening body closing ih => exact readsPhrase_block opening body closing (ih hd)
  | ifOnly start opening condition closing yes ih =>
    exact readsPhrase_ifOnly start opening condition closing yes (ih hd)
  | ifElse start opening condition closing yes otherwise no ih ih' =>
    exact readsPhrase_ifElse start opening condition closing yes otherwise no (ih hd.2.1) hd.1
      (ih' hd.2.2)
  | «while» start opening condition closing body ih =>
    exact readsPhrase_while start opening condition closing body (ih hd)
  | «for» start opening init condition finish increment closing body ih =>
    exact readsPhrase_for start opening init condition finish increment closing body (ih hd)

end Rule

end Scriptlet
