import Mathlib.Order.Bounds.Defs
import Scriptlet.Proofs.Acceptance
import Scriptlet.Proofs.EveryRule
import Scriptlet.Proofs.InBounds

/-!
# Recovery is local

A declaration that cannot be finished is dropped, and parsing takes up again at the next boundary
behind the token that it complained about.  Whether the first declaration was read or dropped, what
is behind it is parsed as if nothing had been before.

* `Walk.Resumable` : the positions at which parsing may take up again, written out without the rule
  for recovery, and `Walk.startsStatement_iff`, by which that rule agrees;
* `Walk.isLeast_boundary` : the boundary that recovery looks for is the first such position;
* `Walk.Drops` : a declaration is dropped at its last complaint, and parsing takes up at the first
  boundary behind it;
* `Walk.exists_drops` : **every declaration that cannot be finished is dropped in this way**;
* `exists_parse?_drop` : **what is behind the first declaration is parsed as if it stood alone**;
* `recovery_is_local` : both together.
-/

namespace Scriptlet

namespace Walk

open Rule

variable {α β : Type} {tokens : List Token} {last : Token} {i j p q : Nat}

/-! ### Where parsing may take up again -/

/-- A position at which parsing may take up again: at the end of the source, at one of the keywords
at which a statement starts, or behind a semicolon. -/
def Resumable (tokens : List Token) (i : Nat) : Prop :=
  (∃ t ∈ tokens[i]?, t.kind = .endOfFile ∨
    ∃ k ∈ ([.class, .fun, .var, .for, .if, .while, .print, .return] : List Keyword),
      t.kind = .keyword k) ∨
    ∃ t ∈ tokens[i - 1]?, t.kind = .symbol .semicolon

/-- These are the keywords that the rule for recovery looks for. -/
theorem startsStatement_iff {kind : Kind} : startsStatement kind = true ↔
    ∃ k ∈ ([.class, .fun, .var, .for, .if, .while, .print, .return] : List Keyword),
      kind = .keyword k := by
  cases kind with
  | keyword k => cases k <;> simp [startsStatement]
  | _ => simp [startsStatement]

theorem resumable_succ {t u : Token} (ht : tokens[i]? = some t) (hu : tokens[i + 1]? = some u) :
    Resumable tokens (i + 1) ↔
      (u.kind.isEnd || t.kind.isSymbol .semicolon || startsStatement u.kind) = true := by
  have hsemicolon : t.kind.isSymbol .semicolon = true ↔ t.kind = .symbol .semicolon :=
    ⟨Kind.eq_of_isSymbol, fun h => by rw [h]; rfl⟩
  simp only [Resumable, Nat.add_sub_cancel, ht, hu, Option.mem_some_iff, exists_eq_left',
    Bool.or_eq_true, Kind.isEnd_iff, hsemicolon, startsStatement_iff]
  exact or_right_comm

/-- **Behind a token, the boundary is the first position at which parsing may take up again**, if
there is an end of the source. -/
theorem isLeast_boundary (rest : List Token) : ∀ p t, tokens[p]? = some t →
    tokens.drop (p + 1) = rest → (∃ u ∈ rest, u.kind.isEnd = true) →
      ∃ q, q ≤ tokens.length ∧ tokens.drop q = boundary t rest ∧
        IsLeast {r | p < r ∧ Resumable tokens r} q := by
  induction rest with
  | nil => rintro p t _ _ ⟨u, hu, _⟩; cases hu
  | cons u rest ih =>
    intro p t ht hrest hended
    have hu : tokens[p + 1]? = some u := by
      rw [← List.head?_drop, hrest]
      rfl
    have hlt : p + 1 < tokens.length := (List.getElem?_eq_some_iff.1 hu).1
    rw [boundary]
    split
    · rename_i hstop
      refine ⟨p + 1, Nat.le_of_lt hlt, hrest, ⟨Nat.lt_succ_self p, ?_⟩, fun r hr => hr.1⟩
      exact (resumable_succ ht hu).2 hstop
    · rename_i hgo
      have hdrop : tokens.drop (p + 1 + 1) = rest := by
        rw [← List.drop_drop, hrest]
        rfl
      have hended' : ∃ v ∈ rest, v.kind.isEnd = true := by
        obtain ⟨v, hv, hend⟩ := hended
        rcases List.mem_cons.1 hv with rfl | hv
        · simp [hend] at hgo
        · exact ⟨v, hv, hend⟩
      obtain ⟨q, hq, hboundary, ⟨hpq, hresumable⟩, hleast⟩ := ih (p + 1) u hu hdrop hended'
      refine ⟨q, hq, hboundary, ⟨Nat.lt_of_succ_lt hpq, hresumable⟩, fun r hr => hleast ⟨?_, hr.2⟩⟩
      -- parsing does not take up again right behind the token
      have hne : r ≠ p + 1 := by
        rintro rfl
        exact hgo ((resumable_succ ht hu).1 hr.2)
      exact Nat.lt_of_le_of_ne hr.1 (Ne.symm hne)

theorem isLeast_of_resume (hp : p < limit tokens) (hended : ∃ t ∈ tokens, t.kind.isEnd = true)
    (hq : q ≤ tokens.length) (h : cursorAt tokens last q = resume (cursorAt tokens last p)) :
    IsLeast {r | p < r ∧ Resumable tokens r} q := by
  obtain ⟨t, ht, hend, hdrop⟩ := exists_of_lt_limit hp
  have hlimit : limit tokens < tokens.length := List.findIdx_lt_length_of_exists hended
  have hahead : ∃ u ∈ tokens.drop (p + 1), u.kind.isEnd = true := by
    refine ⟨tokens[limit tokens], ?_, List.findIdx_getElem (w := hlimit)⟩
    refine List.mem_drop_iff_getElem.2 ⟨limit tokens - (p + 1), by omega, ?_⟩
    congr 1
    omega
  obtain ⟨r, hr, hboundary, hleast⟩ := isLeast_boundary _ p t ht rfl hahead
  have hresume : tokens.drop q = tokens.drop r := by
    have hrest := congrArg Cursor.rest h
    rw [hboundary]
    simpa [cursorAt, resume, hdrop, hend] using hrest
  obtain rfl : q = r := by
    have hlength := congrArg List.length hresume
    rw [List.length_drop, List.length_drop] at hlength
    omega
  exact hleast

/-! ### Declarations that are dropped -/

/-- A declaration or a statement, without recovery. -/
def unrecovered (e : Walk tokens Expr) (s : Walk tokens Stmt) : Walk tokens Stmt := do
  if ← accept (Kind.isKeyword .var) then varDeclaration e else s

theorem follows_unrecovered {e : Walk tokens Expr} {e' : Rule Expr} {s : Walk tokens Stmt}
    {s' : Rule Stmt} (hlast : tokens.getLast? = some last) (he : Steps last e e')
    (hs : Steps last s s') (hi : i ≤ limit tokens) :
    Follows last i i (unrecovered e s) (Rule.unrecovered e' s') := by
  rw [← accept_var_bind]
  refine (follows_accept hlast rfl hi).bind fun given j hij _ hj => .ite ?_ ?_
  · exact (varDeclaration_steps hlast he j hj).mono (by omega)
  · exact (hs j hj).mono (by omega)

/-- A declaration that starts at `i` and is read with bounds `n` and `k` is dropped at `p`, and
parsing takes up at `q`. -/
structure Drops (tokens : List Token) (last : Token) (n k i p q : Nat) (errors : List SyntaxError) :
    Prop where
  /-- The declaration gets stuck at `p`, -/
  stuck : Rule.unrecovered (expression n) (statement (expression n) k) (cursorAt tokens last i) =
    .stuck (cursorAt tokens last p) errors
  /-- also if tokens are read by index. -/
  stuckByIndex : ∃ log, (unrecovered (expression n) (statement (expression n) k) : Walk tokens _) i =
    ⟨log, .stuck p errors⟩
  /-- Its last error is about the token there. -/
  complains : ∃ t complaint, tokens[p]? = some t ∧
    errors.getLast? = some (SyntaxError.atToken t complaint)
  /-- Recovery leads to `q`, -/
  resumes : (declaration (expression n) (statement (expression n) k) : Rule _)
    (cursorAt tokens last i) = .done none (cursorAt tokens last q) errors
  /-- also if tokens are read by index. -/
  synchronizes : ∃ log, (synchronize : Walk tokens Unit) p = ⟨log, .done () q []⟩
  /-- From the end of the source there is no way on. -/
  stays : p = limit tokens → q = p
  /-- From anywhere before it, `q` is the first position at which parsing may take up again. -/
  first : p < limit tokens → IsLeast {r | p < r ∧ Resumable tokens r} q

/-- **A declaration that cannot be finished is dropped at its last complaint, and parsing takes up at
the first boundary behind it.** -/
theorem exists_drops (hlast : tokens.getLast? = some last)
    (hended : ∃ t ∈ tokens, t.kind.isEnd = true) {n k : Nat} {c : Cursor}
    {errors : List SyntaxError} (hi : i ≤ limit tokens)
    (h : (declaration (expression n) (statement (expression n) k) : Rule _)
      (cursorAt tokens last i) = .done none c errors) :
    ∃ p q, p ≤ limit tokens ∧ q ≤ limit tokens ∧ c = cursorAt tokens last q ∧
      Drops tokens last n k i p q errors := by
  have hexpression : Steps last (expression n : Walk tokens Expr) (expression n) :=
    expression_steps hlast n
  have htracks := (follows_unrecovered hlast hexpression
    (statement_steps hlast hexpression k) hi).tracks
  have hrecover := h
  rw [Rule.declaration_eq, Rule.recover_apply] at hrecover
  generalize hread : Rule.unrecovered (expression n) (statement (expression n) k)
    (cursorAt tokens last i) = reading at hrecover htracks
  generalize hwalk : (unrecovered (expression n) (statement (expression n) k) : Walk tokens _) i =
    trace at htracks
  obtain ⟨log, landing⟩ := trace
  cases htracks with
  | done => cases hrecover
  | endless => cases hrecover
  | @stuck p errors₁ hstart hp =>
    cases hrecover
    obtain ⟨complaint, hcomplaint⟩ := grammar_complains n k _ _ _ hread
    obtain ⟨q, ⟨log', hsync, -⟩, hle, hq, hresume⟩ := exists_lands_synchronize hlast hp
    have hlt : p < tokens.length :=
      Nat.lt_of_le_of_lt hp (List.findIdx_lt_length_of_exists hended)
    have hpeek := getElem?_current hlast (i := p)
    rw [if_pos hlt] at hpeek
    rw [← hresume] at h ⊢
    refine ⟨p, q, hp, hq, rfl, hread, ⟨log, hwalk⟩, ⟨_, complaint, hpeek, hcomplaint⟩, h,
      ⟨log', hsync⟩, fun hend => by omega, fun hmore => ?_⟩
    exact isLeast_of_resume hmore hended (Nat.le_trans hq (limit_le_length tokens)) hresume

end Walk

/-! ### What is behind the first declaration -/

namespace Rule

/-- A declaration of a program that is read with a bound. -/
def topLevel {m : Type → Type} [Reader m] (bound : Nat) : m (Option Stmt) :=
  declaration (expression bound) (statement (expression bound) bound)

theorem program_eq (bound : Nat) :
    (program bound : Rule _) = declarations (fun _ => false) (topLevel bound) bound := rfl

theorem topLevel_respects {R : ∀ α : Type, Rule α → Rule α → Prop} (h : Respected R) {n n' : Nat}
    (hn : n ≤ n') : R (Option Stmt) (topLevel n) (topLevel n') :=
  have he := expression_respects h n n' hn
  declaration_respects h he (statement_respects h he n n' hn)

variable {c : Cursor} {n : Nat}

/-- The rule for programs comes to a value, and larger bounds give the same one. -/
theorem exists_program_done (hg : c.Guarded) (hc : c.rest.length < n) :
    ∃ statements c' errors, ∀ bound larger, n ≤ bound → n ≤ larger →
      (declarations (fun _ => false) (topLevel larger) bound : Rule _) c =
        .done statements c' errors := by
  have hsettles : ((program n : Rule _) c).Settles c c.rest.length := program_settles hg hc
  cases hread : (program n : Rule _) c with
  | stuck c' errors => exact absurd hread (program_ne_stuck n c c' errors)
  | endless => rw [hread] at hsettles; exact hsettles.elim
  | done statements c' errors =>
    refine ⟨statements, c', errors, fun bound larger hbound hlarger => ?_⟩
    have hstop : Parallel Eq (stopped fun _ => false) (stopped fun _ => false) :=
      parallel_stopped fun c c' h => by rw [h]
    have hbelow := declarations_respects below_respected (topLevel_respects below_respected hlarger)
      hstop n bound hbound
    have hends : (program n : Rule _) c ≠ .endless := by rw [hread]; nofun
    exact (hbelow.eq hends).symm.trans hread

end Rule

section Stream

open Rule Walk

variable {ts : List Token} {e : Token}

/-- A stream with an end of the source behind it is parsed with any bound that is large enough. -/
theorem exists_parse?_eq (ts : List Token) (he : e.kind = .endOfFile) :
    ∃ parsed finish, parse? (ts ++ [e]) = some parsed ∧
      ∀ bound larger, (ts ++ [e]).length < bound → (ts ++ [e]).length < larger →
        (declarations (fun _ => false) (topLevel larger) bound : Rule _) ⟨ts ++ [e], e⟩ =
          .done parsed.statements finish parsed.errors := by
  have hg : Cursor.Guarded ⟨ts ++ [e], e⟩ := .inl ⟨e, by simp, Kind.isEnd_iff.2 he⟩
  obtain ⟨statements, finish, errors, hread⟩ :=
    exists_program_done hg (Nat.lt_succ_self (ts ++ [e]).length)
  refine ⟨⟨statements, errors⟩, finish, ?_, fun bound larger => hread bound larger⟩
  rw [parse?_append_end, program_eq, hread _ _ (Nat.le_refl _) (Nat.le_refl _)]

theorem limit_append_end (hts : ∀ t ∈ ts, t.kind ≠ .endOfFile)
    (he : e.kind = .endOfFile) : limit (ts ++ [e]) = ts.length := by
  have hnone : ts.findIdx (fun t => t.kind.isEnd) = ts.length := by
    refine List.findIdx_eq_length.2 fun t ht => ?_
    exact Bool.eq_false_iff.2 fun hend => hts t ht (Kind.isEnd_iff.1 hend)
  rw [limit, List.findIdx_append, hnone, if_neg (Nat.lt_irrefl _)]
  simp [Kind.isEnd_iff.2 he]

/-- The first declaration of a stream is read or dropped, and ends further on. -/
theorem exists_topLevel_done (hts : ∀ t ∈ ts, t.kind ≠ .endOfFile) (he : e.kind = .endOfFile)
    (hne : ts ≠ []) {n : Nat} (hn : (ts ++ [e]).length < n) :
    ∃ log head q errors, (topLevel n : Walk (ts ++ [e]) _) 0 = ⟨log, .done head q errors⟩ ∧
      0 < q ∧ q ≤ ts.length ∧
      (topLevel n : Rule _) (cursorAt (ts ++ [e]) e 0) =
        .done head (cursorAt (ts ++ [e]) e q) errors := by
  have hlast : (ts ++ [e]).getLast? = some e := by simp
  have hlimit := limit_append_end hts he
  have hpos : 0 < limit (ts ++ [e]) := by
    rw [hlimit]
    exact List.length_pos_iff.2 hne
  have hexpression : Steps e (expression n : Walk (ts ++ [e]) Expr) (expression n) :=
    expression_steps hlast n
  have htracks : Walk.Tracks (ts ++ [e]) e 0 1 ((topLevel n : Walk (ts ++ [e]) _) 0).landing
      ((topLevel n : Rule _) (cursorAt (ts ++ [e]) e 0)) :=
    (follows_declaration hlast hexpression (statement_steps hlast hexpression n) hpos).tracks
  -- it comes to an end, since it has a bound above the number of tokens
  have hg : (cursorAt (ts ++ [e]) e 0).Guarded := .inl ⟨e, by simp [cursorAt], Kind.isEnd_iff.2 he⟩
  have hmore : (cursorAt (ts ++ [e]) e 0).atEnd = false := by
    rw [cursorAt_atEnd (Nat.zero_le _)]
    exact decide_eq_false (Nat.ne_of_lt hpos)
  have hsettles : ((topLevel n : Rule _) (cursorAt (ts ++ [e]) e 0)).Settles _ _ :=
    declaration_settles (expression_settlesBelow n)
      (statement_settlesBelow (expression_settlesBelow n) n (Nat.le_refl n)) hg hn hmore
  generalize hread : (topLevel n : Rule _) (cursorAt (ts ++ [e]) e 0) = reading at htracks hsettles
  generalize (topLevel n : Walk (ts ++ [e]) _) 0 = trace at htracks
  obtain ⟨log, landing⟩ := trace
  cases htracks with
  | @done head q errors hstart hlower hq =>
    exact ⟨log, head, q, errors, rfl, hlower, hlimit ▸ hq, rfl⟩
  | stuck =>
    rw [topLevel, Rule.declaration_eq, recover_apply] at hread
    split at hread <;> cases hread
  | endless => exact hsettles.elim

/-- **What is behind the first declaration is parsed as if it stood alone.** -/
theorem exists_parse?_drop (hts : ∀ t ∈ ts, t.kind ≠ .endOfFile) (he : e.kind = .endOfFile)
    (hne : ts ≠ []) :
    ∃ head q errors later, 0 < q ∧ q ≤ ts.length ∧
      (topLevel ((ts ++ [e]).length + 1) : Rule _) (cursorAt (ts ++ [e]) e 0) =
        .done head (cursorAt (ts ++ [e]) e q) errors ∧
      (∃ log, (topLevel ((ts ++ [e]).length + 1) : Walk (ts ++ [e]) _) 0 =
        ⟨log, .done head q errors⟩) ∧
      parse? ((ts ++ [e]).drop q) = some later ∧
      parse? (ts ++ [e]) = some ⟨head.toList ++ later.statements, errors ++ later.errors⟩ := by
  obtain ⟨log, head, q, errors, hwalk, hpos, hq, hread⟩ :=
    exists_topLevel_done hts he hne (Nat.lt_succ_self (ts ++ [e]).length)
  have hdrop : (ts ++ [e]).drop q = ts.drop q ++ [e] := List.drop_append_of_le_length hq
  obtain ⟨later, finish, hlater, hbehind⟩ := exists_parse?_eq (ts.drop q) he
  refine ⟨head, q, errors, later, hpos, hq, hread, ⟨log, hwalk⟩, by rw [hdrop, hlater], ?_⟩
  have hlength : (ts.drop q ++ [e]).length + q = (ts ++ [e]).length := by
    simp
    omega
  have hmore : (Cursor.atEnd ⟨ts ++ [e], e⟩ || false) = false := by
    obtain ⟨t, rest, rfl⟩ := List.exists_cons_of_ne_nil hne
    rw [Bool.or_false]
    exact Bool.eq_false_iff.2 fun hend => hts t List.mem_cons_self (Kind.isEnd_iff.1 hend)
  -- the declarations behind the first one are read with larger bounds than they need
  have hrest := hbehind (ts ++ [e]).length ((ts ++ [e]).length + 1) (by omega) (by omega)
  have hcursor : cursorAt (ts ++ [e]) e q = ⟨ts.drop q ++ [e], e⟩ := by rw [cursorAt, hdrop]
  rw [hcursor] at hread
  have hall : (program ((ts ++ [e]).length + 1) : Rule _) ⟨ts ++ [e], e⟩ =
      .done (head.toList ++ later.statements) finish (errors ++ later.errors) :=
    declarations_of_done hmore hread hrest
  rw [parse?_append_end, hall]

/-- **Recovery is local.**  Take any tokens with no end of the source among them and an end of the
source behind them.  Wherever a declaration is read, at the top or in a block and with any bounds, if
it cannot be finished then it is dropped at its last complaint, and parsing takes up at the first
boundary behind it.  Whether the first declaration of all is read or dropped, the statements and
errors are those of this declaration and then those of parsing what is behind it, as if that stood
alone. -/
theorem recovery_is_local (ts : List Token) (e : Token) (hts : ∀ t ∈ ts, t.kind ≠ .endOfFile)
    (he : e.kind = .endOfFile) :
    (∀ n k i c errors, i ≤ ts.length →
      (declaration (expression n) (statement (expression n) k) : Rule _)
        (cursorAt (ts ++ [e]) e i) = .done none c errors →
      ∃ p q, p ≤ ts.length ∧ q ≤ ts.length ∧ c = cursorAt (ts ++ [e]) e q ∧
        Drops (ts ++ [e]) e n k i p q errors) ∧
    (ts ≠ [] →
      ∃ head q errors later, 0 < q ∧ q ≤ ts.length ∧
        (topLevel ((ts ++ [e]).length + 1) : Rule _) (cursorAt (ts ++ [e]) e 0) =
          .done head (cursorAt (ts ++ [e]) e q) errors ∧
        (∃ log, (topLevel ((ts ++ [e]).length + 1) : Walk (ts ++ [e]) _) 0 =
          ⟨log, .done head q errors⟩) ∧
        parse? ((ts ++ [e]).drop q) = some later ∧
        parse? (ts ++ [e]) = some ⟨head.toList ++ later.statements, errors ++ later.errors⟩) := by
  have hlimit := limit_append_end hts he
  refine ⟨fun n k i c errors hi h => ?_, exists_parse?_drop hts he⟩
  rw [← hlimit] at hi ⊢
  exact exists_drops (by simp) ⟨e, by simp, Kind.isEnd_iff.2 he⟩ hi h

end Stream

/-- The tokens of `print ; a ;`. -/
def valuelessPrint : List Token :=
  [⟨.keyword .print, "print", 1⟩, ⟨.symbol .semicolon, ";", 1⟩, ⟨.identifier "a", "a", 1⟩,
    ⟨.symbol .semicolon, ";", 1⟩]

/-- The first statement is dropped at its semicolon, and the second one is read. -/
theorem valuelessPrint_recovers :
    IsLeast {r | 1 < r ∧ Walk.Resumable (valuelessPrint ++ [⟨.endOfFile, "", 1⟩]) r} 2 ∧
    parse? (valuelessPrint ++ [⟨.endOfFile, "", 1⟩]) =
      some ⟨[.expression (.reference ⟨.identifier "a", "a", 1⟩)],
        [⟨1, .lexeme ";", .expectExpression⟩]⟩ := by
  obtain ⟨hdropped, hbehind⟩ :=
    recovery_is_local valuelessPrint ⟨.endOfFile, "", 1⟩ (by decide) rfl
  constructor
  · obtain ⟨p, q, -, -, -, hdrops⟩ := hdropped 6 6 0 _ _ (Nat.zero_le _) rfl
    obtain ⟨log, hstuck⟩ := hdrops.stuckByIndex
    obtain ⟨log', hsync⟩ := hdrops.synchronizes
    cases hstuck
    cases hsync
    exact hdrops.first (by decide)
  · obtain ⟨head, q, errors, later, -, -, -, ⟨log, hwalk⟩, hlater, hparse⟩ := hbehind nofun
    cases hwalk
    cases hlater
    exact hparse

end Scriptlet
