import Scriptlet.Parse.Statement
import Mathlib.Data.List.Basic

/-!
# Laws of reading

What the rules of the grammar are built from, as equations: rules form a lawful monad, and each
primitive says what it does to a cursor.  A rule of the grammar is then followed token by token by
rewriting, and only the rules that it calls need to be known.

* `Cursor.Uses` : how a cursor moves, by using up tokens that are no end of the source;
* `Cursor.Takes` : how it takes tokens, which behind a stream uses up nothing;
* `Rule.bind_eq_done_nil_iff` : a rule that reports nothing is one whose parts report nothing;
* `Rule.primary_of_group`, `Rule.statement_of_for` and the like : what a rule does, by the token it
  finds;
* `Reading.Settles` : a reading that ends, with its complaints and its cursor in order, and
  `Reading.Settles.bind`, by which a rule settles if its parts do.
-/

namespace Scriptlet

/-- Whether an expression can start with a token of this kind. -/
def Kind.startsExpression : Kind → Bool
  | .symbol .leftParen | .symbol .bang | .symbol .minus => true
  | .identifier _ | .string _ | .number _ => true
  | .keyword .true | .keyword .false | .keyword .nil => true
  | _ => false

theorem Kind.eq_of_isSymbol {k : Kind} {s : Symbol} (h : k.isSymbol s = true) : k = .symbol s := by
  cases k <;> simp_all [Kind.isSymbol]

theorem Kind.eq_of_isKeyword {k : Kind} {w : Keyword} (h : k.isKeyword w = true) :
    k = .keyword w := by
  cases k <;> simp_all [Kind.isKeyword]

theorem Kind.exists_of_isIdentifier {k : Kind} (h : k.isIdentifier = true) :
    ∃ name, k = .identifier name := by
  cases k <;> simp_all [Kind.isIdentifier]

theorem Kind.isEnd_of_isSymbol {k : Kind} {s : Symbol} (h : k.isSymbol s = true) :
    k.isEnd = false := by
  cases k <;> first | rfl | cases h

theorem Kind.isEnd_of_isKeyword {k : Kind} {w : Keyword} (h : k.isKeyword w = true) :
    k.isEnd = false := by
  cases k <;> first | rfl | cases h

theorem Kind.isEnd_of_isIdentifier {k : Kind} (h : k.isIdentifier = true) : k.isEnd = false := by
  cases k <;> first | rfl | cases h

theorem Kind.isEnd_of_startsExpression {k : Kind} (h : k.startsExpression = true) :
    k.isEnd = false := by
  cases k <;> first | rfl | cases h

/-! ### Cursors -/

namespace Cursor

/-- A cursor comes to another one by using up tokens, none of which is the end of the source. -/
structure Uses (c : Cursor) (ts : List Token) (c' : Cursor) : Prop where
  rest : c.rest = ts ++ c'.rest
  last : c'.last = c.last
  inner : ∀ t ∈ ts, t.kind.isEnd = false

/-- There is an end of the source ahead. -/
def Ended (c : Cursor) : Prop := ∃ t ∈ c.rest, t.kind.isEnd = true

variable {c c₁ c₂ : Cursor} {ts us : List Token}

theorem Uses.refl (c : Cursor) : c.Uses [] c := ⟨rfl, rfl, by simp⟩

theorem Uses.trans (h : c.Uses ts c₁) (h' : c₁.Uses us c₂) : c.Uses (ts ++ us) c₂ := by
  refine ⟨by rw [h.rest, h'.rest, List.append_assoc], h'.last.trans h.last, fun t ht => ?_⟩
  rcases List.mem_append.1 ht with ht | ht
  · exact h.inner t ht
  · exact h'.inner t ht

theorem Uses.ended (h : c.Uses ts c₁) (hc : c.Ended) : c₁.Ended := by
  obtain ⟨t, ht, hend⟩ := hc
  rw [h.rest, List.mem_append] at ht
  rcases ht with ht | ht
  · rw [h.inner t ht] at hend; cases hend
  · exact ⟨t, ht, hend⟩

theorem Uses.length (h : c.Uses ts c₁) : c.rest.length = ts.length + c₁.rest.length := by
  rw [h.rest, List.length_append]

theorem Uses.length_le (h : c.Uses ts c₁) : c₁.rest.length ≤ c.rest.length := by
  rw [h.length]; omega

/-- The next token is used up, if a stream has an end and this is not it. -/
theorem Ended.uses_next (hc : c.Ended) (hk : c.peek.kind.isEnd = false) :
    c.Uses [c.peek] c.next := by
  obtain ⟨rest, last⟩ := c
  cases rest with
  | nil => obtain ⟨_, ht, _⟩ := hc; cases ht
  | cons t rest =>
    replace hk : t.kind.isEnd = false := hk
    exact ⟨by simp [next, atEnd, peek, hk], by simp [next, atEnd, hk], by simpa [peek] using hk⟩

@[simp] theorem peek_cons (t : Token) (rest : List Token) (last : Token) :
    (Cursor.mk (t :: rest) last).peek = t := rfl

theorem next_cons {t : Token} (rest : List Token) (last : Token) (h : t.kind.isEnd = false) :
    (Cursor.mk (t :: rest) last).next = ⟨rest, last⟩ := by
  simp [next, atEnd, h]

/-- A token that is no end of the source is used up, unless the stream is over already. -/
theorem exists_uses_next (hk : c.peek.kind.isEnd = false) :
    ∃ ts, c.Uses ts c.next ∧ c.next.rest.length ≤ c.rest.length - 1 := by
  obtain ⟨rest, last⟩ := c
  cases rest with
  | nil => exact ⟨[], Uses.refl _, Nat.le_refl _⟩
  | cons t rest =>
    rw [next_cons rest last (t := t) hk]
    exact ⟨[t], ⟨rfl, rfl, by simpa using hk⟩, by simp⟩

theorem isEnd_of_atEnd (hc : c.Ended) (h : c.atEnd = true) : c.peek.kind.isEnd = true := by
  obtain ⟨rest, last⟩ := c
  cases rest with
  | nil => obtain ⟨_, ht, _⟩ := hc; cases ht
  | cons t rest => exact h

theorem peek_of_rest_nil (h : c.rest = []) : c.peek = c.last := by simp [peek, h]

theorem next_of_atEnd (h : c.atEnd = true) : c.next = c := by rw [next, if_pos h]

theorem next_of_rest_nil (h : c.rest = []) : c.next = c := next_of_atEnd (by rw [atEnd, h])

/-- A cursor comes to another one by taking tokens one after the other, none of which is the end of
the source.  Behind a stream its last token is taken again and again. -/
inductive Takes : Cursor → List Token → Cursor → Prop
  | refl (c : Cursor) : Takes c [] c
  | next {c c' : Cursor} {ts : List Token} (hk : c.peek.kind.isEnd = false)
    (h : Takes c.next ts c') : Takes c (c.peek :: ts) c'

theorem takes_next (hk : c.peek.kind.isEnd = false) : c.Takes [c.peek] c.next := .next hk (.refl _)

theorem Takes.trans (h : c.Takes ts c₁) (h' : c₁.Takes us c₂) : c.Takes (ts ++ us) c₂ := by
  induction h with
  | refl => exact h'
  | next hk _ ih => exact .next hk (ih h')

/-- What is taken is used up, and then nothing is left but the last token of the stream, again. -/
theorem Takes.exists_uses (h : c.Takes ts c₁) : ∃ us n, ts = us ++ List.replicate n c.last ∧
    c.Uses us c₁ ∧ (n ≠ 0 → c₁.rest = []) := by
  induction h with
  | refl c => exact ⟨[], 0, rfl, .refl c, absurd rfl⟩
  | @next c c' ts hk _ ih =>
    obtain ⟨us, n, rfl, huse, hrest⟩ := ih
    obtain ⟨rest, last⟩ := c
    cases rest with
    | nil =>
      -- behind the stream the last token stays
      rw [next_of_rest_nil rfl] at huse ⊢
      obtain ⟨rfl, hnil⟩ := List.append_eq_nil_iff.1 huse.rest.symm
      exact ⟨[], n + 1, rfl, huse, fun _ => hnil⟩
    | cons t rest =>
      rw [next_cons rest last (t := t) hk] at huse ⊢
      refine ⟨t :: us, n, rfl, ?_, hrest⟩
      have huse' : Uses ⟨t :: rest, last⟩ [t] ⟨rest, last⟩ := ⟨rfl, rfl, by simpa using hk⟩
      exact huse'.trans huse

/-- With an end of the source ahead, what is taken is used up. -/
theorem Takes.uses (h : c.Takes ts c₁) (hc : c.Ended) : c.Uses ts c₁ := by
  obtain ⟨us, n, rfl, huse, hrest⟩ := h.exists_uses
  cases n with
  | zero => rwa [List.replicate_zero, List.append_nil]
  | succ n =>
    obtain ⟨t, ht, -⟩ := huse.ended hc
    rw [hrest (Nat.succ_ne_zero n)] at ht
    cases ht

end Cursor

/-! ### The monad of rules -/

namespace Reading

variable {α β : Type}

@[simp] theorem after_nil (r : Reading α) : r.after [] = r := by cases r <;> rfl

theorem after_after (errors more : List SyntaxError) (r : Reading α) :
    (r.after more).after errors = r.after (errors ++ more) := by
  cases r <;> simp [after]

theorem after_eq_done_nil_iff {errors : List SyntaxError} {r : Reading α} {a : α} {c : Cursor} :
    r.after errors = .done a c [] ↔ errors = [] ∧ r = .done a c [] := by
  cases r with
  | done v c' more =>
    simp only [after, Reading.done.injEq, List.append_eq_nil_iff]
    tauto
  | stuck c' more => simp [after]
  | endless => simp [after]

end Reading

namespace Rule

variable {α β : Type} {c c' : Cursor}

theorem bind_apply (x : Rule α) (f : α → Rule β) (c : Cursor) :
    (x >>= f) c = match x c with
      | .done a c errors => (f a c).after errors
      | .stuck c errors => .stuck c errors
      | .endless => .endless := rfl

instance : LawfulMonad Rule := LawfulMonad.mk' Rule
  (by
    intro α x
    funext c
    change (x >>= pure) c = x c
    rw [bind_apply]
    cases x c with
    | done a c errors => simp [pure, Rule.pure, Reading.after]
    | stuck | endless => rfl)
  (by
    intro α β a f
    funext c
    exact Reading.after_nil _)
  (by
    intro α β γ x f g
    funext c
    simp only [bind_apply]
    cases x c with
    | done a c errors =>
      dsimp only
      cases f a c with
      | done b c' more =>
        change ((g b c').after (errors ++ more)) = ((g b c').after more).after errors
        exact (Reading.after_after errors more _).symm
      | stuck | endless => rfl
    | stuck | endless => rfl)

theorem bind_of_done {x : Rule α} {f : α → Rule β} {a : α} (h : x c = .done a c' []) :
    (x >>= f) c = f a c' := by
  rw [bind_apply, h]; exact Reading.after_nil _

theorem bind_of_stuck {x : Rule α} {f : α → Rule β} {errors : List SyntaxError}
    (h : x c = .stuck c' errors) : (x >>= f) c = .stuck c' errors := by
  rw [bind_apply, h]

/-- **A rule reports nothing if and only if its parts report nothing.** -/
theorem bind_eq_done_nil_iff {x : Rule α} {f : α → Rule β} {b : β} :
    (x >>= f) c = .done b c' [] ↔ ∃ a c₁, x c = .done a c₁ [] ∧ f a c₁ = .done b c' [] := by
  rw [bind_apply]
  constructor
  · intro h
    cases hx : x c with
    | done a c₁ errors =>
      simp only [hx] at h
      obtain ⟨rfl, hf⟩ := Reading.after_eq_done_nil_iff.1 h
      exact ⟨a, c₁, rfl, hf⟩
    | stuck | endless => simp [hx] at h
  · rintro ⟨a, c₁, hx, hf⟩
    rw [hx]
    exact Reading.after_eq_done_nil_iff.2 ⟨rfl, hf⟩

/-! ### Primitives -/

@[simp] theorem pure_apply (a : α) (c : Cursor) : (pure a : Rule α) c = .done a c [] := rfl

@[simp] theorem fail_apply (complaint : Complaint) (c : Cursor) :
    (fail complaint : Rule α) c = .stuck c [SyntaxError.atToken c.peek complaint] := rfl

theorem peek_apply (c : Cursor) : (peek : Rule Kind) c = .done c.peek.kind c [] := rfl

theorem advance_apply (c : Cursor) : (advance : Rule Token) c = .done c.peek c.next [] := rfl

theorem stopped_apply (stop : Kind → Bool) (c : Cursor) :
    (stopped stop : Rule Bool) c = .done (c.atEnd || stop c.peek.kind) c [] := rfl

theorem recover_apply (x : Rule α) (c : Cursor) :
    recover x c = match x c with
      | .done a c errors => .done (some a) c errors
      | .stuck c errors => .done none (resume c) errors
      | .endless => .endless := rfl

@[simp] theorem peek_bind (f : Kind → Rule α) (c : Cursor) :
    (peek >>= f) c = f c.peek.kind c := Reading.after_nil _

@[simp] theorem advance_bind (f : Token → Rule α) (c : Cursor) :
    (advance >>= f) c = f c.peek c.next := Reading.after_nil _

@[simp] theorem stopped_bind (stop : Kind → Bool) (f : Bool → Rule α) (c : Cursor) :
    (stopped stop >>= f) c = f (c.atEnd || stop c.peek.kind) c := Reading.after_nil _

@[simp] theorem discard_bind (x : Rule α) (f : PUnit → Rule β) :
    (discard x >>= f) = x >>= fun _ => f ⟨⟩ := bind_map_left _ _ _

@[simp] theorem expect_bind (wanted : Kind → Bool) (complaint : Complaint) (f : Token → Rule α)
    (c : Cursor) :
    (expect wanted complaint >>= f) c =
      if wanted c.peek.kind then f c.peek c.next
      else .stuck c [SyntaxError.atToken c.peek complaint] := by
  rw [expect, bind_assoc, peek_bind]
  split
  · exact advance_bind f c
  · rfl

@[simp] theorem accept_bind (wanted : Kind → Bool) (f : Bool → Rule α) (c : Cursor) :
    (accept wanted >>= f) c =
      if wanted c.peek.kind then f true c.next else f false c := by
  rw [accept, bind_assoc, peek_bind]
  split
  · simp
  · simp

/-- A clause that may be missing, which shows at the next token. -/
def clause (missing : Kind → Bool) (default : α) (x : Rule α) : Rule α := fun c =>
  if missing c.peek.kind then .done default c [] else x c

theorem clause_bind (missing : Kind → Bool) (default : α) (x : Rule α) (f : α → Rule β) :
    (clause missing default x >>= f) =
      peek >>= fun k => if missing k then pure default >>= f else x >>= f := by
  funext c
  rw [peek_bind, bind_apply, clause]
  by_cases h : missing c.peek.kind = true
  · simp only [h, if_true, pure_bind]; exact Reading.after_nil _
  · simp only [h]; rfl

/-- The clauses of a `for` loop, one after the other. -/
theorem forStatement_eq (e : Rule Expr) (s : Rule Stmt) :
    forStatement e s = (do
      discard (expect (Kind.isSymbol .leftParen) .expectForStart)
      let init ← forInit e
      let condition ← clause (Kind.isSymbol .semicolon) (.literal (.boolean true)) e
      discard (expect (Kind.isSymbol .semicolon) .expectForCondition)
      let increment ← clause (Kind.isSymbol .rightParen) none (some <$> e)
      discard (expect (Kind.isSymbol .rightParen) .expectForEnd)
      let body ← s
      return .counted init condition increment body) := by
  simp only [forStatement, clause_bind]

/-- A declaration or a statement, without recovery. -/
def unrecovered (e : Rule Expr) (s : Rule Stmt) : Rule Stmt := fun c =>
  if c.peek.kind.isKeyword .var then varDeclaration e c.next else s c

theorem declaration_eq (e : Rule Expr) (s : Rule Stmt) :
    declaration e s = recover (unrecovered e s) := by
  rw [declaration]
  congr 1
  funext c
  rw [accept_bind]
  rfl

/-- Declarations are over where something stops them. -/
theorem declarations_of_stopped {stop : Kind → Bool} (d : Rule (Option Stmt)) {n : Nat} (hn : 0 < n)
    (h : (c.atEnd || stop c.peek.kind) = true) : declarations stop d n c = .done [] c [] := by
  obtain ⟨n, rfl⟩ := Nat.exists_eq_succ_of_ne_zero (Nat.ne_of_gt hn)
  rw [declarations, stopped_bind, h]
  rfl

/-- A declaration, and declarations behind it. -/
theorem declarations_of_done {stop : Kind → Bool} {d : Rule (Option Stmt)} {n : Nat}
    {head : Option Stmt} {tail : List Stmt} {c'' : Cursor} {errors more : List SyntaxError}
    (h : (c.atEnd || stop c.peek.kind) = false) (hd : d c = .done head c' errors)
    (hrest : declarations stop d n c' = .done tail c'' more) :
    declarations stop d (n + 1) c = .done (head.toList ++ tail) c'' (errors ++ more) := by
  rw [declarations, stopped_bind, h, if_neg (by decide), bind_apply, hd]
  simp only [bind_apply, hrest, pure_apply, Reading.after, List.append_nil]

/-! ### Rules by the token they find -/

section Cases

variable (e : Rule Expr) (k : Nat)

theorem primary_of_literal {v : Value} (h : c.peek.kind.literal? = some v) :
    primary e c = .done (.literal v) c.next [] := by
  rw [primary, peek_bind, h]
  simp only [discard_bind, advance_bind, pure_apply]

theorem primary_of_name {name : String} (h : c.peek.kind = .identifier name) :
    primary e c = .done (.reference c.peek) c.next [] := by
  rw [primary, peek_bind, h]
  exact advance_bind _ c

theorem primary_of_group (h : c.peek.kind = .symbol .leftParen) :
    primary e c = (e >>= fun inner =>
      discard (expect (Kind.isSymbol .rightParen) .expectGroupEnd) >>= fun _ =>
        pure (.grouping inner)) c.next := by
  rw [primary, peek_bind, h]
  simp only [Kind.literal?, discard_bind, advance_bind]

theorem primary_of_other (hl : c.peek.kind.literal? = none) (hn : c.peek.kind.isIdentifier = false)
    (hp : c.peek.kind ≠ .symbol .leftParen) :
    primary e c = .stuck c [SyntaxError.atToken c.peek .expectExpression] := by
  rw [primary, peek_bind, hl]
  dsimp only
  generalize c.peek.kind = kind at hn hp ⊢
  cases kind with
  | symbol s => cases s <;> first | rfl | simp at hp
  | identifier => cases hn
  | _ => rfl

theorem unary_of_operator (h : c.peek.kind = .symbol .bang ∨ c.peek.kind = .symbol .minus) :
    unary e (k + 1) c = (unary e k >>= fun operand => pure (Expr.unary c.peek operand)) c.next := by
  rw [unary, peek_bind]
  rcases h with h | h
  · rw [h]; exact advance_bind _ c
  · rw [h]; exact advance_bind _ c

theorem unary_of_other (h : ¬ (c.peek.kind = .symbol .bang ∨ c.peek.kind = .symbol .minus)) :
    unary e (k + 1) c = primary e c := by
  rw [unary, peek_bind]
  generalize c.peek.kind = kind at h ⊢
  cases kind with
  | symbol s => cases s <;> first | rfl | simp at h
  | _ => rfl

theorem forInit_of_semicolon (h : c.peek.kind = .symbol .semicolon) :
    forInit e c = .done none c.next [] := by
  rw [forInit, peek_bind, h]
  simp only [discard_bind, advance_bind, pure_apply]

theorem forInit_of_var (h : c.peek.kind = .keyword .var) :
    forInit e c = (some <$> varDeclaration e) c.next := by
  rw [forInit, peek_bind, h]
  simp only [discard_bind, advance_bind]

theorem forInit_of_other (hs : c.peek.kind ≠ .symbol .semicolon) (hv : c.peek.kind ≠ .keyword .var) :
    forInit e c = (some <$> expressionStatement e) c := by
  rw [forInit, peek_bind]
  generalize c.peek.kind = kind at hs hv ⊢
  cases kind with
  | symbol s => cases s <;> first | rfl | simp at hs
  | keyword w => cases w <;> first | rfl | simp at hv
  | _ => rfl

/-- A statement is told by its first token. -/
theorem statement_apply (c : Cursor) :
    statement e (k + 1) c = match c.peek.kind with
      | .keyword .for => forStatement e (statement e k) c.next
      | .keyword .if => ifStatement e (statement e k) c.next
      | .keyword .print => printStatement e c.next
      | .keyword .while => whileStatement e (statement e k) c.next
      | .symbol .leftBrace => block (declaration e (statement e k)) (k + 1) c.next
      | _ => expressionStatement e c := by
  rw [statement, peek_bind]
  generalize c.peek.kind = kind
  split <;> simp only [discard_bind, advance_bind]

variable {k} in
theorem statement_of_for (h : c.peek.kind = .keyword .for) :
    statement e (k + 1) c = forStatement e (statement e k) c.next := by
  rw [statement_apply, h]

variable {k} in
theorem statement_of_if (h : c.peek.kind = .keyword .if) :
    statement e (k + 1) c = ifStatement e (statement e k) c.next := by
  rw [statement_apply, h]

theorem statement_of_print (h : c.peek.kind = .keyword .print) :
    statement e (k + 1) c = printStatement e c.next := by
  rw [statement_apply, h]

variable {k} in
theorem statement_of_while (h : c.peek.kind = .keyword .while) :
    statement e (k + 1) c = whileStatement e (statement e k) c.next := by
  rw [statement_apply, h]

variable {k} in
theorem statement_of_block (h : c.peek.kind = .symbol .leftBrace) :
    statement e (k + 1) c = block (declaration e (statement e k)) (k + 1) c.next := by
  rw [statement_apply, h]

theorem statement_of_other (h : c.peek.kind ∉ [Kind.keyword .for, .keyword .if, .keyword .print,
    .keyword .while, .symbol .leftBrace]) :
    statement e (k + 1) c = expressionStatement e c := by
  rw [statement_apply]
  generalize c.peek.kind = kind at h ⊢
  cases kind with
  | symbol s => cases s <;> first | rfl | simp at h
  | keyword w => cases w <;> first | rfl | simp at h
  | _ => rfl

end Cases

end Rule

/-! ### Readings that end -/

namespace Reading

variable {α β : Type} {c : Cursor} {n : Nat}

/-- A reading from a cursor comes to an end: with a value, and then at most so many tokens are left,
or with a complaint.  Either way the cursor has only moved on. -/
def Settles (c : Cursor) (n : Nat) : Reading α → Prop
  | done _ c' _ => (∃ ts, c.Uses ts c') ∧ c'.rest.length ≤ n
  | stuck c' errors => (∃ ts, c.Uses ts c') ∧ errors ≠ []
  | endless => False

theorem Settles.mono {r : Reading α} {k : Nat} (h : r.Settles c n) (hn : n ≤ k) :
    r.Settles c k := by
  cases r with
  | done => exact ⟨h.1, Nat.le_trans h.2 hn⟩
  | stuck => exact h
  | endless => exact h

theorem Settles.after {r : Reading α} {c₁ : Cursor} {ts : List Token} (h : r.Settles c₁ n)
    (hc : c.Uses ts c₁) (errors : List SyntaxError) : (r.after errors).Settles c n := by
  cases r with
  | done =>
    obtain ⟨⟨us, hus⟩, hn⟩ := h
    exact ⟨⟨_, hc.trans hus⟩, hn⟩
  | stuck =>
    obtain ⟨⟨us, hus⟩, hne⟩ := h
    exact ⟨⟨_, hc.trans hus⟩, by simp [hne]⟩
  | endless => exact h

/-- What follows a token that is no end of the source, once it is taken. -/
theorem Settles.next {r : Reading α} (h : r.Settles c.next n) (hk : c.peek.kind.isEnd = false) :
    r.Settles c n := by
  obtain ⟨ts, hts, -⟩ := Cursor.exists_uses_next hk
  simpa using h.after hts []

theorem settles_pure (a : α) (h : c.rest.length ≤ n) : (done a c []).Settles c n :=
  ⟨⟨[], .refl c⟩, h⟩

theorem settles_fail (complaint : Complaint) :
    (stuck c [SyntaxError.atToken c.peek complaint] : Reading α).Settles c n :=
  ⟨⟨[], .refl c⟩, by simp⟩

/-- **A rule settles if its parts do**, the second one from wherever the first one ends. -/
theorem Settles.bind {x : Rule α} {f : α → Rule β} {k : Nat} (hx : (x c).Settles c k)
    (hf : ∀ a c' ts, c.Uses ts c' → c'.rest.length ≤ k → (f a c').Settles c' n) :
    ((x >>= f) c).Settles c n := by
  rw [Rule.bind_apply]
  cases h : x c with
  | done a c' errors =>
    rw [h] at hx
    obtain ⟨⟨ts, hts⟩, hk⟩ := hx
    exact (hf a c' ts hts hk).after hts errors
  | stuck c' errors => rw [h] at hx; exact hx
  | endless => rw [h] at hx; exact hx

/-- An expected token that follows, and then the rest of the rule. -/
theorem settles_expect {wanted : Kind → Bool} {complaint : Complaint} {f : Token → Rule α}
    (hend : wanted .endOfFile = false)
    (hf : wanted c.peek.kind = true → c.next.rest.length ≤ c.rest.length - 1 →
      (f c.peek c.next).Settles c.next n) :
    ((Rule.expect wanted complaint >>= f) c).Settles c n := by
  rw [Rule.expect_bind]
  split
  · rename_i hw
    have hk : c.peek.kind.isEnd = false := by
      cases h : c.peek.kind <;> simp_all [Kind.isEnd]
    obtain ⟨_, _, hlen⟩ := Cursor.exists_uses_next hk
    exact (hf hw hlen).next hk
  · exact settles_fail complaint

/-- An expected token that ends a rule. -/
theorem settles_close {wanted : Kind → Bool} {complaint : Complaint} (a : α)
    (hend : wanted .endOfFile = false) (hn : c.rest.length ≤ n + 1) :
    ((discard (Rule.expect wanted complaint) >>= fun _ => (pure a : Rule α)) c).Settles c n := by
  rw [Rule.discard_bind]
  exact settles_expect hend fun _ hlen => settles_pure a (by omega)

end Reading

end Scriptlet
