import Scriptlet.Parse
import Scriptlet.Proofs.Reading

/-!
# Parsing comes to an end

A rule has a bound on how often it calls itself, and is endless when the bound is used up.  Here a
bound above the number of tokens is shown to be enough: every call uses up a token.  The exception
is a stream without an end of the source, whose last token is seen again and again.  There a rule
goes in circles just when that token opens something, so such a stream has to end in another one
(`Cursor.Guarded`).

* `Rule.SettlesBelow` : a rule settles at every guarded cursor with fewer tokens than a bound, and
  uses up a token on the way;
* `Rule.expression_settlesBelow`, `Rule.statement_settlesBelow` : the rules for expressions and
  statements do, with their own bound;
* `Rule.program_settles`, `exists_parse` : so does the rule for programs, and parsing has an answer.
-/

namespace Scriptlet

/-- The kinds after which an expression starts anew. -/
def Kind.opens (k : Kind) : Prop := k ∈ [Kind.symbol .leftParen, .symbol .minus, .symbol .bang]

namespace Cursor

/-- A rule cannot go in circles from here: there is an end of the source ahead, or the token that
is seen behind the stream does not open anything. -/
def Guarded (c : Cursor) : Prop := c.Ended ∨ ¬ c.last.kind.opens

variable {c c' : Cursor} {ts : List Token}

theorem Uses.guarded (h : c.Uses ts c') (hc : c.Guarded) : c'.Guarded := by
  rcases hc with hc | hc
  · exact .inl (h.ended hc)
  · exact .inr (by rwa [h.last])

theorem Guarded.next (hc : c.Guarded) (hk : c.peek.kind.isEnd = false) : c.next.Guarded := by
  obtain ⟨ts, hts, -⟩ := exists_uses_next hk
  exact hts.guarded hc

/-- A token that opens something is not the last one. -/
theorem Guarded.rest_ne_nil (hc : c.Guarded) (hk : c.peek.kind.opens) : c.rest ≠ [] := by
  intro hrest
  rcases hc with ⟨t, ht, -⟩ | hc
  · rw [hrest] at ht; cases ht
  · rw [peek_of_rest_nil hrest] at hk
    exact hc hk

theorem length_pos_of_rest_ne_nil (h : c.rest ≠ []) : 0 < c.rest.length :=
  List.length_pos_iff.2 h

end Cursor

namespace Rule

open Reading

variable {α : Type} {c : Cursor}

/-- A rule settles at every guarded cursor with fewer than `n` tokens, and uses one up. -/
def SettlesBelow (x : Rule α) (n : Nat) : Prop :=
  ∀ c : Cursor, c.Guarded → c.rest.length < n → (x c).Settles c (c.rest.length - 1)

/-- A rule is stuck at once where no expression can start. -/
def NeedsStart (x : Rule α) : Prop :=
  ∀ c : Cursor, c.peek.kind.startsExpression = false →
    x c = .stuck c [SyntaxError.atToken c.peek .expectExpression]

/-! ### Expressions -/

variable {e : Rule Expr} {n : Nat}

theorem startsExpression_of_literal {k : Kind} {v : Value} (h : k.literal? = some v) :
    k.startsExpression = true := by
  unfold Kind.literal? at h
  split at h <;> first | rfl | cases h

theorem primary_needsStart (e : Rule Expr) : (primary e).NeedsStart := by
  intro c hk
  refine primary_of_other e ?_ ?_ ?_
  · cases hl : c.peek.kind.literal? with
    | none => rfl
    | some v => rw [startsExpression_of_literal hl] at hk; cases hk
  · cases h : c.peek.kind <;> simp_all [Kind.startsExpression, Kind.isIdentifier]
  · intro h; rw [h] at hk; cases hk

theorem unary_needsStart (e : Rule Expr) (k : Nat) : (unary e (k + 1)).NeedsStart := by
  intro c hk
  rw [unary_of_other]
  · exact primary_needsStart e c hk
  · rintro (h | h) <;> (rw [h] at hk; cases hk)

theorem operand_needsStart {u : Rule Expr} (hu : u.NeedsStart) (k : Nat) :
    ∀ levels, (operand u k levels).NeedsStart
  | [], c, hk => hu c hk
  | _ :: tighter, c, hk => bind_of_stuck (operand_needsStart hu k tighter c hk)

theorem primary_settlesBelow (he : e.SettlesBelow n) : (primary e).SettlesBelow (n + 1) := by
  intro c hg hc
  by_cases hs : c.peek.kind.startsExpression = true
  swap
  · rw [primary_needsStart e c (by simpa using hs)]
    exact settles_fail _
  have hend := Kind.isEnd_of_startsExpression hs
  obtain ⟨_, _, hlen⟩ := Cursor.exists_uses_next hend
  cases hl : c.peek.kind.literal? with
  | some v =>
    rw [primary_of_literal e hl]
    exact (settles_pure _ hlen).next hend
  | none =>
    by_cases hp : c.peek.kind = .symbol .leftParen
    · have hpos := Cursor.length_pos_of_rest_ne_nil
        (hg.rest_ne_nil (by rw [hp]; simp [Kind.opens]))
      rw [primary_of_group e hp]
      refine Settles.next (Settles.bind (he _ (hg.next hend) (by omega)) ?_) hend
      intro inner c₁ ts hts hlen₁
      exact settles_close _ rfl (by omega)
    · cases hn : c.peek.kind with
      | identifier name =>
        rw [primary_of_name e hn]
        exact (settles_pure _ hlen).next hend
      | _ =>
        rw [primary_of_other e hl (by rw [hn]; rfl) hp]
        exact settles_fail _

theorem unary_settlesBelow (he : e.SettlesBelow n) :
    ∀ k ≤ n + 1, (unary e k).SettlesBelow k := by
  intro k
  induction k with
  | zero => intro _ c _ hc; omega
  | succ k ih =>
    intro hk c hg hc
    by_cases hop : c.peek.kind = .symbol .bang ∨ c.peek.kind = .symbol .minus
    · -- an operator is not the last token, so its operand starts one token further on
      have hopens : c.peek.kind.opens := by rcases hop with h | h <;> simp [h, Kind.opens]
      have hend : c.peek.kind.isEnd = false := by rcases hop with h | h <;> (rw [h]; rfl)
      have hpos := Cursor.length_pos_of_rest_ne_nil (hg.rest_ne_nil hopens)
      obtain ⟨_, _, hlen⟩ := Cursor.exists_uses_next hend
      rw [unary_of_operator e k hop]
      refine Settles.next (Settles.bind (ih (by omega) _ (hg.next hend) (by omega)) ?_) hend
      intro operand c₁ ts hts hlen₁
      exact settles_pure _ (by omega)
    · rw [unary_of_other e k hop]
      exact primary_settlesBelow he c hg (by omega)

theorem isEnd_of_has {l : Level} {k : Kind} (h : l.has k = true) : k.isEnd = false := by
  cases k <;> first | rfl | (cases l <;> cases h)

theorem opens_of_has {l : Level} {k : Kind} (h : l.has k = true)
    (hk : k.startsExpression = true) : k.opens := by
  cases k with
  | symbol s => cases s <;> first | (simp [Kind.opens]; done) | cases hk
  | keyword w => cases w <;> first | (cases hk; done) | (cases l <;> cases h)
  | _ => cases l <;> cases h

theorem chain_settles {x : Rule Expr} (hx : x.SettlesBelow n) (hstart : x.NeedsStart) (l : Level) :
    ∀ k left (c : Cursor), c.Guarded → c.rest.length < k → c.rest.length < n →
      (chain l x k left c).Settles c c.rest.length := by
  intro k
  induction k with
  | zero => intro _ c _ hc; omega
  | succ k ih =>
    intro left c hg hk hn
    rw [chain, peek_bind]
    split
    · rename_i hop
      have hend := isEnd_of_has hop
      rw [advance_bind]
      by_cases hrest : c.rest = []
      · -- behind the stream the operator is seen again, where an operand has to start
        have hno : c.peek.kind.startsExpression = false := by
          by_contra hs
          exact hg.rest_ne_nil (opens_of_has hop (by simpa using hs)) hrest
        rw [Cursor.next_of_rest_nil hrest, bind_of_stuck (hstart c hno)]
        exact settles_fail _
      · have hpos := Cursor.length_pos_of_rest_ne_nil hrest
        obtain ⟨_, _, hlen⟩ := Cursor.exists_uses_next hend
        refine Settles.next (Settles.bind (hx _ (hg.next hend) (by omega)) ?_) hend
        intro right c₁ ts hts hlen₁
        exact (ih _ c₁ (hts.guarded (hg.next hend)) (by omega) (by omega)).mono (by omega)
    · exact settles_pure _ (Nat.le_refl _)

theorem operand_settlesBelow {u : Rule Expr} (hu : u.SettlesBelow n) (hstart : u.NeedsStart) :
    ∀ levels, (operand u n levels).SettlesBelow n
  | [] => hu
  | l :: tighter => by
    intro c hg hc
    have ih := operand_settlesBelow hu hstart tighter
    refine Settles.bind (ih c hg hc) ?_
    intro left c₁ ts hts hlen
    have hle := hts.length_le
    exact (chain_settles ih (operand_needsStart hstart n tighter) l n left c₁ (hts.guarded hg)
      (by omega) (by omega)).mono hlen

theorem expression_needsStart (k : Nat) : (expression (k + 1)).NeedsStart := fun c hk =>
  bind_of_stuck (operand_needsStart (unary_needsStart _ _) _ _ c hk)

theorem settles_assignTo {target value : Expr} {equals : Token} (h : c.rest.length ≤ n) :
    ((assignTo target equals value : Rule Expr) c).Settles c n := by
  unfold assignTo
  split
  · exact settles_pure _ h
  · exact ⟨⟨[], .refl c⟩, h⟩

/-- **Expressions end**: a bound above the number of tokens is never used up. -/
theorem expression_settlesBelow (k : Nat) : (expression k).SettlesBelow k := by
  induction k with
  | zero => intro c _ hc; omega
  | succ k ih =>
    intro c hg hc
    by_cases hs : c.peek.kind.startsExpression = true
    · have hu := unary_settlesBelow ih (k + 1) (Nat.le_refl _)
      refine Settles.bind (operand_settlesBelow hu (unary_needsStart _ _) _ c hg hc) ?_
      intro target c₁ ts hts hlen
      have hle := hts.length_le
      rw [peek_bind]
      split
      · rename_i heq
        have hend := Kind.isEnd_of_isSymbol heq
        have hpos : 0 < c.rest.length := by
          -- otherwise the cursor has not moved, and no expression starts with an equals sign
          by_contra hzero
          have hrest : c.rest = [] := List.length_eq_zero_iff.1 (by omega)
          have hrest₁ : c₁.rest = [] := List.length_eq_zero_iff.1 (by omega)
          rw [Cursor.peek_of_rest_nil hrest₁, hts.last, ← Cursor.peek_of_rest_nil hrest] at heq
          cases h : c.peek.kind <;> simp_all [Kind.isSymbol, Kind.startsExpression]
        obtain ⟨_, _, hlen₁⟩ := Cursor.exists_uses_next hend
        rw [advance_bind]
        refine Settles.next (Settles.bind
          (ih _ ((hts.guarded hg).next hend) (by omega)) ?_) hend
        intro value c₂ us hus hlen₂
        exact settles_assignTo (by omega)
      · exact settles_pure _ hlen
    · rw [expression_needsStart k c (by simpa using hs)]
      exact settles_fail _

/-! ### Statements -/

variable {s : Rule Stmt}

theorem varDeclaration_settlesBelow (he : e.SettlesBelow n) : (varDeclaration e).SettlesBelow n := by
  intro c hg hc
  refine settles_expect rfl fun hname hlen => ?_
  have hg₁ := hg.next (Kind.isEnd_of_isIdentifier hname)
  rw [accept_bind]
  split
  · rename_i heq
    have hend := Kind.isEnd_of_isSymbol heq
    obtain ⟨_, _, hlen₁⟩ := Cursor.exists_uses_next hend
    simp only [if_true, bind_map_left]
    refine Settles.next (Settles.bind (he _ (hg₁.next hend) (by omega)) ?_) hend
    intro init c₂ ts hts hlen₂
    exact settles_close _ rfl (by omega)
  · simp only [Bool.false_eq_true, if_false, pure_bind]
    exact settles_close _ rfl (by omega)

theorem expressionStatement_settlesBelow (he : e.SettlesBelow n) :
    (expressionStatement e).SettlesBelow n := by
  intro c hg hc
  refine Settles.bind (he c hg hc) ?_
  intro value c₁ ts hts hlen
  exact settles_close _ rfl (by omega)

theorem printStatement_settlesBelow (he : e.SettlesBelow n) :
    (printStatement e).SettlesBelow n := by
  intro c hg hc
  refine Settles.bind (he c hg hc) ?_
  intro value c₁ ts hts hlen
  exact settles_close _ rfl (by omega)

theorem forInit_settlesBelow (he : e.SettlesBelow n) : (forInit e).SettlesBelow n := by
  intro c hg hc
  by_cases hsemi : c.peek.kind = .symbol .semicolon
  · have hend : c.peek.kind.isEnd = false := by rw [hsemi]; rfl
    obtain ⟨_, _, hlen⟩ := Cursor.exists_uses_next hend
    rw [forInit_of_semicolon e hsemi]
    exact (settles_pure _ hlen).next hend
  by_cases hvar : c.peek.kind = .keyword .var
  · have hend : c.peek.kind.isEnd = false := by rw [hvar]; rfl
    obtain ⟨_, _, hlen⟩ := Cursor.exists_uses_next hend
    rw [forInit_of_var e hvar, ← bind_pure_comp]
    refine Settles.next (Settles.bind
      (varDeclaration_settlesBelow he _ (hg.next hend) (by omega)) ?_) hend
    intro init c₁ ts hts hlen₁
    exact settles_pure _ (by omega)
  · rw [forInit_of_other e hsemi hvar, ← bind_pure_comp]
    refine Settles.bind (expressionStatement_settlesBelow he c hg hc) ?_
    intro init c₁ ts hts hlen₁
    exact settles_pure _ hlen₁

theorem settles_clause {x : Rule α} (hx : x.SettlesBelow n) (missing : Kind → Bool) (a : α)
    (hg : c.Guarded) (hc : c.rest.length < n) : (clause missing a x c).Settles c c.rest.length := by
  unfold clause
  split
  · exact settles_pure _ (Nat.le_refl _)
  · exact (hx c hg hc).mono (Nat.sub_le _ _)

theorem some_settlesBelow {x : Rule α} (hx : x.SettlesBelow n) : (some <$> x).SettlesBelow n := by
  intro c hg hc
  rw [← bind_pure_comp]
  exact Settles.bind (hx c hg hc) fun _ _ _ _ hlen => settles_pure _ hlen

theorem forStatement_settlesBelow (he : e.SettlesBelow n) (hs : s.SettlesBelow n) :
    (forStatement e s).SettlesBelow n := by
  intro c hg hc
  rw [forStatement_eq, discard_bind]
  refine settles_expect rfl fun hopen hlen => ?_
  have hg₁ := hg.next (Kind.isEnd_of_isSymbol hopen)
  refine Settles.bind (forInit_settlesBelow he _ hg₁ (by omega)) ?_
  intro init c₂ ts hts hlen₂
  have hg₂ := hts.guarded hg₁
  refine Settles.bind (settles_clause he _ _ hg₂ (by omega)) ?_
  intro condition c₃ us hus hlen₃
  have hg₃ := hus.guarded hg₂
  rw [discard_bind]
  refine settles_expect rfl fun hsemi hlen₄ => ?_
  have hg₄ := hg₃.next (Kind.isEnd_of_isSymbol hsemi)
  refine Settles.bind (settles_clause (some_settlesBelow he) _ _ hg₄ (by omega)) ?_
  intro increment c₅ vs hvs hlen₅
  have hg₅ := hvs.guarded hg₄
  rw [discard_bind]
  refine settles_expect rfl fun hclose hlen₆ => ?_
  refine Settles.bind (hs _ (hg₅.next (Kind.isEnd_of_isSymbol hclose)) (by omega)) ?_
  intro body c₇ ws hws hlen₇
  exact settles_pure _ (by omega)

theorem ifStatement_settlesBelow (he : e.SettlesBelow n) (hs : s.SettlesBelow n) :
    (ifStatement e s).SettlesBelow n := by
  intro c hg hc
  rw [ifStatement, discard_bind]
  refine settles_expect rfl fun hopen hlen => ?_
  have hg₁ := hg.next (Kind.isEnd_of_isSymbol hopen)
  refine Settles.bind (he _ hg₁ (by omega)) ?_
  intro condition c₂ ts hts hlen₂
  have hg₂ := hts.guarded hg₁
  rw [discard_bind]
  refine settles_expect rfl fun hclose hlen₃ => ?_
  have hg₃ := hg₂.next (Kind.isEnd_of_isSymbol hclose)
  refine Settles.bind (hs _ hg₃ (by omega)) ?_
  intro yes c₄ us hus hlen₄
  have hg₄ := hus.guarded hg₃
  rw [accept_bind]
  split
  · rename_i helse
    have hend := Kind.isEnd_of_isKeyword helse
    obtain ⟨_, _, hlen₅⟩ := Cursor.exists_uses_next hend
    simp only [if_true, bind_map_left]
    refine Settles.next (Settles.bind (hs _ (hg₄.next hend) (by omega)) ?_) hend
    intro no c₆ vs hvs hlen₆
    exact settles_pure _ (by omega)
  · simp only [Bool.false_eq_true, if_false, pure_bind]
    exact settles_pure _ (by omega)

theorem whileStatement_settlesBelow (he : e.SettlesBelow n) (hs : s.SettlesBelow n) :
    (whileStatement e s).SettlesBelow n := by
  intro c hg hc
  rw [whileStatement, discard_bind]
  refine settles_expect rfl fun hopen hlen => ?_
  have hg₁ := hg.next (Kind.isEnd_of_isSymbol hopen)
  refine Settles.bind (he _ hg₁ (by omega)) ?_
  intro condition c₂ ts hts hlen₂
  have hg₂ := hts.guarded hg₁
  rw [discard_bind]
  refine settles_expect rfl fun hclose hlen₃ => ?_
  refine Settles.bind (hs _ (hg₂.next (Kind.isEnd_of_isSymbol hclose)) (by omega)) ?_
  intro body c₄ us hus hlen₄
  exact settles_pure _ (by omega)

/-! ### Declarations -/

theorem boundary_suffix (previous : Token) (ts : List Token) :
    ∃ us, ts = us ++ boundary previous ts ∧ ∀ t ∈ us, t.kind.isEnd = false := by
  induction ts generalizing previous with
  | nil => exact ⟨[], rfl, by simp⟩
  | cons t rest ih =>
    rw [boundary]
    split
    · exact ⟨[], rfl, by simp⟩
    · rename_i h
      simp only [Bool.or_eq_true, not_or, Bool.not_eq_true] at h
      obtain ⟨us, hus, hend⟩ := ih t
      refine ⟨t :: us, congrArg (t :: ·) hus, fun u hu => ?_⟩
      rcases List.mem_cons.1 hu with rfl | hu
      · exact h.1.1
      · exact hend u hu

/-- Recovery moves on past at least one token, unless nothing is left. -/
theorem uses_resume (c : Cursor) :
    ∃ ts, c.Uses ts (resume c) ∧ (c.atEnd = false → (resume c).rest.length < c.rest.length) := by
  obtain ⟨rest, last⟩ := c
  cases rest with
  | nil => exact ⟨[], .refl _, fun h => by cases h⟩
  | cons t rest =>
    rw [resume]
    dsimp only
    split
    · rename_i hend
      exact ⟨[], .refl _, fun h => absurd (hend.symm.trans h) (by decide)⟩
    · rename_i hend
      obtain ⟨us, hus, hinner⟩ := boundary_suffix t rest
      have hu : Cursor.Uses ⟨t :: rest, last⟩ (t :: us) ⟨boundary t rest, last⟩ := by
        refine ⟨congrArg (t :: ·) hus, rfl, fun u hu => ?_⟩
        rcases List.mem_cons.1 hu with rfl | hu
        · simpa using hend
        · exact hinner u hu
      refine ⟨t :: us, hu, fun _ => ?_⟩
      have hlen := hu.length
      simp only [List.length_cons] at hlen ⊢
      omega

theorem unrecovered_settlesBelow (he : e.SettlesBelow n) (hs : s.SettlesBelow n) :
    (unrecovered e s).SettlesBelow n := by
  intro c hg hc
  unfold unrecovered
  split
  · rename_i hvar
    have hend := Kind.isEnd_of_isKeyword hvar
    obtain ⟨_, _, hlen⟩ := Cursor.exists_uses_next hend
    exact ((varDeclaration_settlesBelow he _ (hg.next hend) (by omega)).next hend).mono (by omega)
  · exact hs c hg hc

/-- **A declaration moves on**, whether it can be read or not. -/
theorem declaration_settles (he : e.SettlesBelow n) (hs : s.SettlesBelow n) (hg : c.Guarded)
    (hc : c.rest.length < n) (hmore : c.atEnd = false) :
    (declaration e s c).Settles c (c.rest.length - 1) := by
  have hx := unrecovered_settlesBelow he hs c hg hc
  rw [declaration_eq, recover_apply]
  cases h : unrecovered e s c with
  | done => rw [h] at hx; exact hx
  | endless => rw [h] at hx; exact hx
  | stuck c₁ errors =>
    rw [h] at hx
    obtain ⟨⟨ts, hts⟩, -⟩ := hx
    obtain ⟨us, hus, hstrict⟩ := uses_resume c₁
    refine ⟨⟨_, hts.trans hus⟩, ?_⟩
    have hlen := hts.length
    have hlen' := hus.length_le
    -- either tokens were used up before, or the cursor still stands where more are left
    cases ts with
    | cons t ts => simp only [List.length_cons] at hlen; omega
    | nil =>
      have hatEnd : c₁.atEnd = false := by
        rw [← hmore, Cursor.atEnd, Cursor.atEnd, hts.rest]; rfl
      have := hstrict hatEnd
      simp only [List.length_nil] at hlen
      omega

theorem declarations_settles {d : Rule (Option Stmt)} {stop : Kind → Bool}
    (hd : ∀ c : Cursor, c.Guarded → c.rest.length < n → c.atEnd = false →
      (d c).Settles c (c.rest.length - 1)) :
    ∀ k (c : Cursor), c.Guarded → c.rest.length < k → c.rest.length < n →
      (declarations stop d k c).Settles c c.rest.length := by
  intro k
  induction k with
  | zero => intro c _ hc; omega
  | succ k ih =>
    intro c hg hk hn
    rw [declarations, stopped_bind]
    split
    · exact settles_pure _ (Nat.le_refl _)
    · rename_i hstop
      simp only [Bool.or_eq_true, not_or, Bool.not_eq_true] at hstop
      have hpos : 0 < c.rest.length := by
        by_contra hzero
        have hrest : c.rest = [] := List.length_eq_zero_iff.1 (by omega)
        simp [Cursor.atEnd, hrest] at hstop
      refine Settles.bind (hd c hg hn hstop.1) ?_
      intro head c₁ ts hts hlen
      refine Settles.bind (ih c₁ (hts.guarded hg) (by omega) (by omega)) ?_
      intro tail c₂ us hus hlen₂
      exact settles_pure _ (by omega)

theorem block_settles (he : e.SettlesBelow n) (hs : s.SettlesBelow n) {k : Nat} (hg : c.Guarded)
    (hk : c.rest.length < k) (hn : c.rest.length < n) :
    (block (declaration e s) k c).Settles c (c.rest.length - 1) := by
  refine Settles.bind (declarations_settles
    (fun c hg hc hmore => declaration_settles he hs hg hc hmore) k c hg hk hn) ?_
  intro body c₁ ts hts hlen
  exact settles_close _ rfl (by omega)

/-- **Statements end**: a bound above the number of tokens is never used up. -/
theorem statement_settlesBelow (he : e.SettlesBelow n) :
    ∀ k ≤ n, (statement e k).SettlesBelow k := by
  intro k
  induction k with
  | zero => intro _ c _ hc; omega
  | succ k ih =>
    intro hk c hg hc
    have hs : (statement e k).SettlesBelow k := ih (by omega)
    have he' : e.SettlesBelow k := fun c hg hc => he c hg (by omega)
    -- what starts with a word of its own goes on one token further, or stumbles over that word
    have step : ∀ {x : Rule Stmt}, c.peek.kind.isEnd = false →
        (c.rest = [] → (x c).Settles c (c.rest.length - 1)) →
        (∀ c₁ : Cursor, c₁.Guarded → c₁.rest.length < k → (x c₁).Settles c₁ (c₁.rest.length - 1)) →
        (x c.next).Settles c (c.rest.length - 1) := by
      intro x hend hnil hx
      by_cases hrest : c.rest = []
      · rw [Cursor.next_of_rest_nil hrest]
        exact hnil hrest
      · have hpos := Cursor.length_pos_of_rest_ne_nil hrest
        obtain ⟨_, _, hlen⟩ := Cursor.exists_uses_next hend
        exact ((hx _ (hg.next hend) (by omega)).next hend).mono (by omega)
    by_cases hfor : c.peek.kind = .keyword .for
    · rw [statement_of_for e hfor]
      refine step (by rw [hfor]; rfl) (fun _ => ?_) (forStatement_settlesBelow he' hs)
      rw [forStatement_eq, discard_bind]
      exact settles_expect rfl fun h => by rw [hfor] at h; cases h
    by_cases hif : c.peek.kind = .keyword .if
    · rw [statement_of_if e hif]
      refine step (by rw [hif]; rfl) (fun _ => ?_) (ifStatement_settlesBelow he' hs)
      rw [ifStatement, discard_bind]
      exact settles_expect rfl fun h => by rw [hif] at h; cases h
    by_cases hwhile : c.peek.kind = .keyword .while
    · rw [statement_of_while e hwhile]
      refine step (by rw [hwhile]; rfl) (fun _ => ?_) (whileStatement_settlesBelow he' hs)
      rw [whileStatement, discard_bind]
      exact settles_expect rfl fun h => by rw [hwhile] at h; cases h
    by_cases hprint : c.peek.kind = .keyword .print
    · rw [statement_of_print e k hprint]
      refine step (by rw [hprint]; rfl) (fun hrest => ?_) (printStatement_settlesBelow he')
      exact printStatement_settlesBelow he c hg (by omega)
    by_cases hblock : c.peek.kind = .symbol .leftBrace
    · rw [statement_of_block e hblock]
      refine step (by rw [hblock]; rfl) (fun hrest => ?_)
        fun c₁ hg₁ hc₁ => block_settles he' hs hg₁ (by omega) hc₁
      rw [block, declarations]
      have hatEnd : c.atEnd = true := by simp [Cursor.atEnd, hrest]
      simp only [bind_assoc, stopped_bind, hatEnd, Bool.true_or, if_true, pure_bind, discard_bind]
      exact settles_expect rfl fun h => by rw [hblock] at h; cases h
    · rw [statement_of_other e k (by simp [hfor, hif, hprint, hwhile, hblock])]
      exact expressionStatement_settlesBelow he c hg (by omega)

/-- **Programs end**: with a bound above the number of tokens, the rule for programs settles. -/
theorem program_settles (hg : c.Guarded) (hc : c.rest.length < n) :
    ((program n : Rule (List Stmt)) c).Settles c c.rest.length :=
  declarations_settles (fun _ hg hc hmore => declaration_settles (expression_settlesBelow n)
    (statement_settlesBelow (expression_settlesBelow n) n (Nat.le_refl n)) hg hc hmore) n c hg hc hc

end Rule

/-- **Parsing has an answer** for every stream with an end of the source, or with a last token that
does not open anything. -/
theorem exists_parse {tokens : List Token}
    (h : ∀ last ∈ tokens.getLast?, Cursor.Guarded ⟨tokens, last⟩) : ∃ r, parse? tokens = some r := by
  cases hl : tokens.getLast? with
  | none => exact ⟨⟨[], []⟩, by rw [parse?, hl]⟩
  | some last =>
    have hs := Rule.program_settles (h last hl) (Nat.lt_succ_self tokens.length)
    simp only [parse?, hl]
    cases hp : (Rule.program (tokens.length + 1) : Rule _) ⟨tokens, last⟩ with
    | done statements c errors => exact ⟨_, rfl⟩
    | stuck c errors => exact ⟨_, rfl⟩
    | endless => rw [hp] at hs; exact hs.elim

end Scriptlet
