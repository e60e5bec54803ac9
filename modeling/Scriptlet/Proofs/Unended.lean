import Scriptlet.Proofs.Recovery

/-!
# Streams without an end of the source

Behind a stream that has no end of the source, its last token is seen again and again.  Most tokens
cannot be taken for a second time there: what can end a program is a semicolon or a closing brace,
and no statement ends in two semicolons.  But a brace that closes a block closes the blocks around
it as well.  So such a stream is read as if there was an end of the source behind its last token, or
behind so many more of it as there are blocks to be closed.

* `Grammar.Closes` : how statements end;
* `parse?_of_ended` : what is read with an end of the source is read without one;
* `exists_parse?_ended` : what is read without one is read with one, if the last token comes often
  enough;
* `Rule.Again` : the steps cannot tell whether a closing brace comes once more or is seen once more;
* `parse?_of_again`, `parse?_of_replicate` : so it need not come more than once;
* `unended_stream_iff` : **a stream without an end of the source is read as if its last token came
  again, if that is a closing brace, and then an end.**
-/

namespace Scriptlet

/-! ### How statements end -/

namespace Grammar

variable {ts us : List Token}

theorem ExprDerivation.exists_last {r : Rank} (d : ExprDerivation r) :
    ∃ ts t, d.tokens = ts ++ [t] ∧ t.kind ≠ .symbol .semicolon := by
  induction d with
  | assign name equal value ih =>
    obtain ⟨ts, t, htokens, ht⟩ := ih
    exact ⟨name.val :: equal.val :: ts, t, by rw [tokens, htokens]; rfl, ht⟩
  | operand e ih | first e ih | bare e ih => exact ih
  | more left operator right _ ih =>
    obtain ⟨ts, t, htokens, ht⟩ := ih
    exact ⟨left.tokens ++ operator.val :: ts, t, by rw [tokens, htokens]; simp, ht⟩
  | unary operator e ih =>
    obtain ⟨ts, t, htokens, ht⟩ := ih
    exact ⟨operator.val :: ts, t, by rw [tokens, htokens]; rfl, ht⟩
  | reference name =>
    obtain ⟨_, text, hk⟩ := name
    exact ⟨[], _, rfl, by rw [hk]; simp⟩
  | number t | string t | true t | false t | nil t => exact ⟨[], _, rfl, by rw [t.property]; simp⟩
  | group opening e closing =>
    exact ⟨opening.val :: e.tokens, closing.val, rfl, by rw [closing.property]; simp⟩

/-- Tokens end in a closing brace, or in a semicolon with something else before it. -/
inductive Closes : List Token → Prop
  | brace (ts : List Token) {t : Token} (h : t.kind = .symbol .rightBrace) : Closes (ts ++ [t])
  | semicolon (ts : List Token) {t finish : Token} (ht : t.kind ≠ .symbol .semicolon)
    (h : finish.kind = .symbol .semicolon) : Closes (ts ++ [t, finish])

theorem Closes.append (h : Closes ts) (us : List Token) : Closes (us ++ ts) := by
  cases h with
  | brace ts h => rw [← List.append_assoc]; exact .brace _ h
  | semicolon ts ht h => rw [← List.append_assoc]; exact .semicolon _ ht h

theorem Closes.cons (h : Closes ts) (t : Token) : Closes (t :: ts) := h.append [t]

/-- Only a closing brace can come twice. -/
theorem Closes.eq_brace_of_twice {t : Token} (h : Closes (ts ++ [t, t])) :
    t.kind = .symbol .rightBrace := by
  generalize hus : ts ++ [t, t] = us at h
  cases h with
  | @brace us u h =>
    have hsplit : ts ++ [t] ++ [t] = us ++ [u] := by rw [List.append_assoc]; exact hus
    obtain rfl := List.singleton_inj.1 (List.append_inj' hsplit rfl).2
    exact h
  | @semicolon us u finish hu h =>
    obtain ⟨rfl, rfl⟩ : t = u ∧ t = finish := by simpa using (List.append_inj' hus rfl).2
    exact absurd h hu

theorem Closes.ne_else {t : Token} (h : Closes (ts ++ [t])) : t.kind ≠ .keyword .else := by
  generalize hus : ts ++ [t] = us at h
  cases h with
  | brace us h =>
    obtain rfl := List.singleton_inj.1 (List.append_inj' hus rfl).2
    rw [h]
    nofun
  | @semicolon us u finish hu h =>
    have hsplit : ts ++ [t] = us ++ [u] ++ [finish] := by rw [List.append_assoc]; exact hus
    obtain rfl := List.singleton_inj.1 (List.append_inj' hsplit rfl).2
    rw [h]
    nofun

/-- An expression and a semicolon. -/
theorem Expression.closes (e : Expression) (finish : Tok (.symbol .semicolon)) :
    Closes (e.tokens ++ [finish.val]) := by
  obtain ⟨ts, t, htokens, ht⟩ := e.exists_last
  rw [htokens, List.append_assoc]
  exact .semicolon ts ht finish.property

theorem VarDeclaration.closes (d : VarDeclaration) : Closes d.tokens := by
  obtain ⟨start, ⟨name, text, hname⟩, init, finish⟩ := d
  cases init with
  | none => exact .semicolon [start.val] (by rw [hname]; nofun) finish.property
  | some init => exact (((init.2.closes finish).cons init.1.val).cons name).cons start.val

theorem Derivation.tokens_ne_nil (d : Derivation .statement) : d.tokens ≠ [] := by
  obtain ⟨t, ts, htokens, -⟩ := d.exists_first_statement
  rw [htokens]
  exact List.cons_ne_nil t ts

/-- **Statements end in a closing brace, or in a semicolon that does not come twice.** -/
theorem Derivation.closes {p : Phrase} (d : Derivation p) (hne : d.tokens ≠ []) :
    Closes d.tokens := by
  induction d with
  | empty => exact absurd rfl hne
  | cons d ds ih ihs =>
    by_cases hds : ds.tokens = []
    · rw [tokens, hds, List.append_nil] at hne ⊢
      exact ih hne
    · exact (ihs hds).append d.tokens
  | var d => exact d.closes
  | statement s ih => exact ih hne
  | expression e finish => exact e.closes finish
  | print start e finish => exact (e.closes finish).cons start.val
  | block opening body closing =>
    exact .brace (opening.val :: body.tokens) closing.property
  | ifOnly start opening condition closing yes ih =>
    exact ((((ih yes.tokens_ne_nil).cons closing.val).append _).cons _).cons _
  | ifElse start opening condition closing yes otherwise no _ ih =>
    exact ((((((ih no.tokens_ne_nil).cons otherwise.val).append _).cons closing.val).append
      _).cons _).cons _
  | «while» start opening condition closing body ih =>
    exact ((((ih body.tokens_ne_nil).cons closing.val).append _).cons _).cons _
  | «for» start opening init condition finish increment closing body ih =>
    exact (((((((ih body.tokens_ne_nil).cons closing.val).append _).cons finish.val).append
      _).append _).cons _).cons _

end Grammar

open Grammar Rule

section Stream

variable {ts : List Token} {last e : Token} {statements : List Stmt}

/-! ### With an end of the source and without one -/

/-- Without an end of the source, nothing is left only behind the stream. -/
theorem rest_eq_nil_of_atEnd {us : List Token} {c : Cursor} (hts : ∀ t ∈ ts, t.kind ≠ .endOfFile)
    (hrest : ts = us ++ c.rest) (hend : c.atEnd = true) : c.rest = [] := by
  obtain ⟨rest, last⟩ := c
  cases rest with
  | nil => rfl
  | cons t rest => exact absurd (Kind.isEnd_iff.1 hend) (hts t (by rw [hrest]; simp))

/-- What parsing gives is what the rule for programs reads. -/
theorem exists_program_eq {r : Parse} (h : parse? (ts ++ [last]) = some r) :
    ∃ c, (program ((ts ++ [last]).length + 1) : Rule _) ⟨ts ++ [last], last⟩ =
      .done r.statements c r.errors := by
  rw [parse?_append_end] at h
  generalize hread : (program ((ts ++ [last]).length + 1) : Rule _) ⟨ts ++ [last], last⟩ =
    reading at h
  cases reading with
  | endless => cases h
  | stuck c errors => exact absurd hread (program_ne_stuck _ _ _ _)
  | done statements c errors =>
    cases h
    exact ⟨c, rfl⟩

/-- What is read with an end of the source is read without one. -/
theorem parse?_of_ended (hts : ∀ t ∈ ts ++ [last], t.kind ≠ .endOfFile) (he : e.kind = .endOfFile)
    (h : parse? (ts ++ [last] ++ [e]) = some ⟨statements, []⟩) :
    parse? (ts ++ [last]) = some ⟨statements, []⟩ := by
  obtain ⟨d, htokens, hnearest, rfl⟩ := exists_derivation_of_parse? hts he h rfl
  have hcloses : Closes (ts ++ [last]) := htokens ▸ d.closes (by rw [htokens]; simp)
  have hprogram := program_of_derivation d hnearest (Nat.lt_succ_self _) [] last hcloses.ne_else rfl
  rw [List.append_nil] at hprogram
  rw [parse?_append_end, ← htokens, hprogram]

/-- What is read without an end of the source is read with one, if the last token comes again as
often as it was taken again.  Only a closing brace is. -/
theorem exists_parse?_ended (hts : ∀ t ∈ ts ++ [last], t.kind ≠ .endOfFile)
    (he : e.kind = .endOfFile) (h : parse? (ts ++ [last]) = some ⟨statements, []⟩) :
    ∃ j, (j = 0 ∨ last.kind = .symbol .rightBrace) ∧
      parse? (ts ++ [last] ++ List.replicate j last ++ [e]) = some ⟨statements, []⟩ := by
  obtain ⟨c, hread⟩ := exists_program_eq h
  obtain ⟨d, rfl, htake, hnearest, hatEnd⟩ := program_reads hread
  obtain ⟨us, j, htokens, huse, -⟩ := htake.exists_uses
  obtain rfl : us = ts ++ [last] := by
    have hrest := huse.rest
    rw [rest_eq_nil_of_atEnd hts hrest hatEnd, List.append_nil] at hrest
    exact hrest.symm
  refine ⟨j, ?_, by rw [← htokens, parse?_of_derivation d hnearest he]⟩
  cases j with
  | zero => exact .inl rfl
  | succ j =>
    have htwice : d.tokens = ts ++ List.replicate j last ++ [last, last] := by
      calc d.tokens = ts ++ ([last] ++ List.replicate (j + 1) last) := by
            rw [htokens, List.append_assoc]
        _ = ts ++ List.replicate (j + 2) last := rfl
        _ = ts ++ List.replicate j last ++ [last, last] := by
            rw [List.replicate_add, List.append_assoc]; rfl
    exact .inr (Closes.eq_brace_of_twice (htwice ▸ d.closes (by rw [htwice]; simp)))

end Stream

/-! ### Closing braces once more -/

namespace Rule

variable {last : Token} {c c' : Cursor}

/-- The second stream is the first one without its last token, which is the last one of the second
stream, too.  The cursors have the same tokens ahead of them but for that one; or the first one has
taken it, and the second one takes it for the second time. -/
inductive Again (last : Token) : Cursor → Cursor → Prop
  | ahead (rest : List Token) : Again last ⟨rest ++ [last], last⟩ ⟨rest, last⟩
  | behind : Again last ⟨[], last⟩ ⟨[], last⟩

theorem Again.peek (h : Again last c c') : c.peek = c'.peek := by
  cases h with
  | ahead rest => cases rest <;> rfl
  | behind => rfl

theorem Again.next (hlast : last.kind.isEnd = false) (h : Again last c c') :
    Again last c.next c'.next := by
  cases h with
  | behind => exact .behind
  | ahead rest =>
    cases rest with
    | nil =>
      rw [List.nil_append, Cursor.next_cons [] last hlast]
      exact .behind
    | cons t rest =>
      cases hend : t.kind.isEnd with
      | false =>
        rw [List.cons_append, Cursor.next_cons _ last hend, Cursor.next_cons _ last hend]
        exact .ahead rest
      | true =>
        have hstays (ts : List Token) : (Cursor.mk (t :: ts) last).next = ⟨t :: ts, last⟩ :=
          Cursor.next_of_atEnd hend
        rw [List.cons_append, hstays, hstays]
        exact .ahead (t :: rest)

theorem again_boundary (rest : List Token) : ∀ previous,
    Again last ⟨boundary previous (rest ++ [last]), last⟩ ⟨boundary previous rest, last⟩ := by
  induction rest with
  | nil =>
    intro previous
    rw [List.nil_append, boundary, boundary]
    split
    · exact .ahead []
    · exact .behind
  | cons t rest ih =>
    intro previous
    rw [List.cons_append, boundary, boundary]
    split
    · exact .ahead (t :: rest)
    · exact ih t

theorem Again.resume (hlast : last.kind.isEnd = false) (h : Again last c c') :
    Again last (resume c) (resume c') := by
  cases h with
  | behind => exact .behind
  | ahead rest =>
    cases rest with
    | nil =>
      rw [List.nil_append, Rule.resume, Rule.resume]
      simp only [hlast]
      exact .behind
    | cons t rest =>
      simp only [List.cons_append, Rule.resume]
      split
      · exact .ahead (t :: rest)
      · exact again_boundary rest t

/-- **The steps of the grammar cannot tell whether a closing brace comes once more, or is seen once
more.** -/
theorem again_indistinct (hlast : last.kind = .symbol .rightBrace) : Indistinct (Again last) where
  peek h := h.peek
  stopped h := by
    cases h with
    | behind => rfl
    | ahead rest =>
      cases rest with
      | nil => simp [Cursor.peek, Cursor.atEnd, hlast, Kind.isSymbol]
      | cons t rest => rfl
  next h := h.next (by rw [hlast]; rfl)
  resume h := h.resume (by rw [hlast]; rfl)

/-- No declaration starts with a closing brace. -/
theorem topLevel_ne_done_of_brace {n : Nat} {head : Option Stmt}
    (hbrace : c.peek.kind = .symbol .rightBrace) :
    (topLevel n : Rule _) c ≠ .done head c' [] := by
  intro h
  have hes := grammar_complains n
  obtain ⟨v, -, hread⟩ := declaration_eq_done_nil (hes n) h
  obtain ⟨d, -, htake, -⟩ := unrecovered_reads (expression_readsOnly n)
    (statement_reads (expression_readsOnly n) hes n) hread
  obtain ⟨t, ts, htokens, hstart⟩ := d.exists_first_declaration
  rw [htokens] at htake
  cases htake
  exact hstart.2.1 hbrace

/-- Either stream is over only if the other one is, unless all that is left is a closing brace. -/
theorem Again.atEnd (hlast : last.kind = .symbol .rightBrace) (h : Again last c c') :
    c'.atEnd = c.atEnd ∨ c.atEnd = false ∧ c.peek.kind = .symbol .rightBrace := by
  cases h with
  | behind => exact .inl rfl
  | ahead rest =>
    cases rest with
    | nil => exact .inr ⟨by simp [Cursor.atEnd, hlast, Kind.isEnd], hlast⟩
    | cons t rest => exact .inl rfl

/-- What is read without a complaint is read as well if a closing brace at the end is seen once more
instead of coming once more. -/
theorem exists_declarations_again (hlast : last.kind = .symbol .rightBrace) (bound : Nat) :
    ∀ n c c' statements finish, Again last c c' →
      (declarations (fun _ => false) (topLevel bound) n : Rule _) c = .done statements finish [] →
      ∃ finish', (declarations (fun _ => false) (topLevel bound) n : Rule _) c' =
        .done statements finish' [] := by
  have hparallel : Parallel (Again last) (topLevel bound) (topLevel bound) :=
    topLevel_respects (parallel_respected (again_indistinct hlast)) (Nat.le_refl bound)
  intro n
  induction n with
  | zero => intro c c' statements finish _ h; cases h
  | succ n ih =>
    intro c c' statements finish hagain h
    rw [declarations, stopped_bind, Bool.or_false] at h
    split at h
    · rename_i hend
      cases h
      have hend' : c'.atEnd = true := by
        rcases hagain.atEnd hlast with heq | ⟨hmore, -⟩
        · rw [heq, hend]
        · rw [hmore] at hend; cases hend
      exact ⟨c', declarations_of_stopped _ (Nat.succ_pos n) (by rw [hend', Bool.true_or])⟩
    · rename_i hmore
      obtain ⟨head, c₁, hhead, h⟩ := bind_eq_done_nil_iff.1 h
      obtain ⟨tail, c₂, htail, h⟩ := bind_eq_done_nil_iff.1 h
      cases h
      -- the closing brace comes once more inside of a block, and not between declarations
      have hmore' : c'.atEnd = false := by
        rcases hagain.atEnd hlast with heq | ⟨-, hbrace⟩
        · rwa [heq, ← Bool.not_eq_true]
        · exact absurd hhead (topLevel_ne_done_of_brace hbrace)
      have hread := hparallel c c' hagain
      rw [hhead] at hread
      generalize hhead' : (topLevel bound : Rule _) c' = reading at hread
      cases hread with
      | done hagain' =>
        obtain ⟨finish', htail'⟩ := ih _ _ _ _ hagain' htail
        exact ⟨finish', declarations_of_done (by rw [hmore', Bool.false_or]) hhead' htail'⟩

end Rule

section Stream

variable {ts : List Token} {last e : Token} {statements : List Stmt}

/-- A closing brace at the end need not come once more. -/
theorem parse?_of_again (hlast : last.kind = .symbol .rightBrace)
    (h : parse? (ts ++ [last] ++ [last]) = some ⟨statements, []⟩) :
    parse? (ts ++ [last]) = some ⟨statements, []⟩ := by
  obtain ⟨c, hread⟩ := exists_program_eq h
  obtain ⟨finish, hread'⟩ :=
    exists_declarations_again hlast _ _ _ _ _ _ (.ahead (ts ++ [last])) hread
  -- the shorter stream is read with a smaller bound, which is large enough
  have hguarded : Cursor.Guarded ⟨ts ++ [last], last⟩ := .inr (by simp [Kind.opens, hlast])
  obtain ⟨statements', finish', errors, hbounds⟩ :=
    exists_program_done hguarded (Nat.lt_succ_self (ts ++ [last]).length)
  rw [hbounds _ _ (by simp) (by simp)] at hread'
  cases hread'
  rw [parse?_append_end, program_eq, hbounds _ _ (Nat.le_refl _) (Nat.le_refl _)]

/-- A closing brace at the end need not come again at all. -/
theorem parse?_of_replicate (hlast : last.kind = .symbol .rightBrace) : ∀ j ts,
    parse? (ts ++ [last] ++ List.replicate j last) = some ⟨statements, []⟩ →
      parse? (ts ++ [last]) = some ⟨statements, []⟩ := by
  intro j
  induction j with
  | zero =>
    intro ts h
    rwa [List.replicate_zero, List.append_nil] at h
  | succ j ih =>
    intro ts h
    refine parse?_of_again hlast (ih (ts ++ [last]) ?_)
    rwa [List.append_assoc (ts ++ [last])]

/-- What is read with more closing braces and an end of the source is read without them. -/
theorem parse?_of_ended_replicate {j : Nat} (hts : ∀ t ∈ ts ++ [last], t.kind ≠ .endOfFile)
    (he : e.kind = .endOfFile) (hlast : last.kind = .symbol .rightBrace)
    (h : parse? (ts ++ [last] ++ List.replicate j last ++ [e]) = some ⟨statements, []⟩) :
    parse? (ts ++ [last]) = some ⟨statements, []⟩ := by
  have hmove : ts ++ [last] ++ List.replicate j last = ts ++ List.replicate j last ++ [last] := by
    rw [List.append_assoc, List.append_assoc]
    exact congrArg (ts ++ ·) List.replicate_succ'
  have hinner : ∀ t ∈ ts ++ List.replicate j last ++ [last], t.kind ≠ .endOfFile := by
    intro t ht
    rw [← hmove] at ht
    rcases List.mem_append.1 ht with ht | ht
    · exact hts t ht
    · rw [List.eq_of_mem_replicate ht, hlast]
      nofun
  rw [hmove] at h
  have hunended := parse?_of_ended hinner he h
  rw [← hmove] at hunended
  exact parse?_of_replicate hlast j ts hunended

end Stream

/-- **A stream without an end of the source is read as if its last token came again, if that is a
closing brace, and then an end.**  Take any tokens with no end of the source among them, the last
one of which does not open anything.  Parsing them has an answer.  Unless they end in a closing
brace, they are parsed to some statements without an error if and only if they are with an end of
the source behind them.  If they do, then they are if and only if this is so with some more of these
braces before the end of the source. -/
theorem unended_stream_iff (ts : List Token) (last e : Token)
    (hts : ∀ t ∈ ts ++ [last], t.kind ≠ .endOfFile) (he : e.kind = .endOfFile)
    (hopens : ¬ last.kind.opens) :
    (∃ parsed, parse? (ts ++ [last]) = some parsed) ∧
    (last.kind ≠ .symbol .rightBrace → ∀ statements,
      parse? (ts ++ [last]) = some ⟨statements, []⟩ ↔
        parse? (ts ++ [last] ++ [e]) = some ⟨statements, []⟩) ∧
    ∀ statements, parse? (ts ++ [last]) = some ⟨statements, []⟩ ↔
      ∃ j, (j = 0 ∨ last.kind = .symbol .rightBrace) ∧
        parse? (ts ++ [last] ++ List.replicate j last ++ [e]) = some ⟨statements, []⟩ := by
  have hiff (statements) : parse? (ts ++ [last]) = some ⟨statements, []⟩ ↔
      ∃ j, (j = 0 ∨ last.kind = .symbol .rightBrace) ∧
        parse? (ts ++ [last] ++ List.replicate j last ++ [e]) = some ⟨statements, []⟩ := by
    refine ⟨exists_parse?_ended hts he, ?_⟩
    rintro ⟨j, rfl | hbrace, hj⟩
    · rw [List.replicate_zero, List.append_nil] at hj
      exact parse?_of_ended hts he hj
    · exact parse?_of_ended_replicate hts he hbrace hj
  refine ⟨exists_parse fun t ht => ?_, fun hbrace statements => ?_, hiff⟩
  · rw [List.getLast?_append_of_ne_nil _ (by simp)] at ht
    cases ht
    exact .inr hopens
  · rw [hiff statements]
    constructor
    · rintro ⟨j, hj, h⟩
      obtain rfl := hj.resolve_right hbrace
      rwa [List.replicate_zero, List.append_nil] at h
    · intro h
      exact ⟨0, .inl rfl, by rwa [List.replicate_zero, List.append_nil]⟩

/-- The tokens of two blocks that are opened. -/
def openBlocks : List Token :=
  [⟨.symbol .leftBrace, "\x7b", 1⟩, ⟨.symbol .leftBrace, "\x7b", 1⟩]

/-- One closing brace is read as if there were more of them; behind a semicolon there may be an end
of the source or none. -/
theorem openBlocks_read_again :
    (∃ j, parse? (openBlocks ++ [⟨.symbol .rightBrace, "\x7d", 1⟩] ++
      List.replicate j ⟨.symbol .rightBrace, "\x7d", 1⟩ ++ [⟨.endOfFile, "", 1⟩]) =
        some ⟨[.block [.block []]], []⟩) ∧
    parse? ([⟨.identifier "a", "a", 1⟩] ++ [⟨.symbol .semicolon, ";", 1⟩]) =
      some ⟨[.expression (.reference ⟨.identifier "a", "a", 1⟩)], []⟩ := by
  constructor
  · obtain ⟨-, -, hiff⟩ := unended_stream_iff openBlocks ⟨.symbol .rightBrace, "\x7d", 1⟩
      ⟨.endOfFile, "", 1⟩ (by decide) rfl (by simp [Kind.opens])
    obtain ⟨j, -, hj⟩ := (hiff _).1 rfl
    exact ⟨j, hj⟩
  · obtain ⟨-, hiff, -⟩ := unended_stream_iff [⟨.identifier "a", "a", 1⟩]
      ⟨.symbol .semicolon, ";", 1⟩ ⟨.endOfFile, "", 1⟩ (by decide) rfl (by simp [Kind.opens])
    exact (hiff (by simp) _).2 rfl

/-- **One brace may close two blocks.**  With an end of the source the missing brace is reported,
and without one it is not. -/
theorem brace_closes_twice :
    (∀ t ∈ openBlocks ++ [⟨.symbol .rightBrace, "\x7d", 1⟩], t.kind ≠ .endOfFile) ∧
    ¬ Kind.opens (.symbol .rightBrace) ∧
    parse? (openBlocks ++ [⟨.symbol .rightBrace, "\x7d", 1⟩]) = some ⟨[.block [.block []]], []⟩ ∧
    parse? (openBlocks ++ [⟨.symbol .rightBrace, "\x7d", 1⟩] ++ [⟨.endOfFile, "", 1⟩]) =
      some ⟨[], [⟨1, .finish, .expectBlockEnd⟩]⟩ :=
  ⟨by decide, by simp [Kind.opens], rfl, rfl⟩

end Scriptlet
