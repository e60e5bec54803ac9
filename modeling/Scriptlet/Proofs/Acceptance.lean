import Scriptlet.Parse
import Scriptlet.Proofs.Completeness

/-!
# The parser accepts exactly its grammar

`parse_iff_derivable` : on a stream with an end of the source behind it, parsing has an answer; it
reports nothing if and only if the tokens are derivable; and then it returns the tree of their
derivation.

The grammar is ambiguous in one place, the `else` after several open `if`s, and the tree is that of
the derivations which put it to the nearest one.  All of those have the same tree, and there is one
whenever there is a derivation at all (`Derivation.exists_nearestElse`), so no text is rejected
because of the choice.
-/

namespace Scriptlet

open Grammar

theorem Kind.isEnd_iff {k : Kind} : k.isEnd = true ↔ k = .endOfFile := by
  cases k <;> simp [Kind.isEnd]

section Stream

variable {ts : List Token} {e : Token}

theorem parse?_append_end (ts : List Token) (e : Token) :
    parse? (ts ++ [e]) = match (Rule.program ((ts ++ [e]).length + 1) : Rule _) ⟨ts ++ [e], e⟩ with
      | .done statements _ errors => some ⟨statements, errors⟩
      | .stuck _ errors => some ⟨[], errors⟩
      | .endless => none := by
  rw [parse?, List.getLast?_append_of_ne_nil _ (by simp)]
  rfl

/-- The tokens of a derivation are read as a program if nothing is left behind them. -/
theorem program_of_derivation (d : Derivation .program) (hd : d.NearestElse) {n : Nat}
    (hn : d.tokens.length < n) (rest : List Token) (last : Token)
    (helse : (Cursor.mk rest last).peek.kind ≠ .keyword .else)
    (hend : (Cursor.mk rest last).atEnd = true) :
    (Rule.program n : Rule _) ⟨d.tokens ++ rest, last⟩ = .done d.tree ⟨rest, last⟩ [] := by
  have hreads : Rule.ReadsProgram d.tokens d.tree := Rule.readsPhrase_tree d hd
  exact hreads.declarations hn (Nat.le_refl n) hn (by simp) helse (by simpa using hend)

/-- The tree of a derivation is what parsing its tokens returns. -/
theorem parse?_of_derivation (d : Derivation .program) (hd : d.NearestElse)
    (he : e.kind = .endOfFile) : parse? (d.tokens ++ [e]) = some ⟨d.tree, []⟩ := by
  have hlen : d.tokens.length < (d.tokens ++ [e]).length + 1 := by
    rw [List.length_append]; omega
  rw [parse?_append_end,
    program_of_derivation d hd hlen [e] e (by simp [he]) (Kind.isEnd_iff.2 he)]

/-- What parsing returns without a complaint is the tree of a derivation. -/
theorem exists_derivation_of_parse? {r : Parse} (hts : ∀ t ∈ ts, t.kind ≠ .endOfFile)
    (he : e.kind = .endOfFile) (h : parse? (ts ++ [e]) = some r) (hr : r.errors = []) :
    ∃ d : Derivation .program, d.tokens = ts ∧ d.NearestElse ∧ d.tree = r.statements := by
  have hended : Cursor.Ended ⟨ts ++ [e], e⟩ := ⟨e, by simp, Kind.isEnd_iff.2 he⟩
  have hset := Rule.program_settles (.inl hended) (Nat.lt_succ_self (ts ++ [e]).length)
  rw [parse?_append_end] at h
  cases hp : (Rule.program ((ts ++ [e]).length + 1) : Rule _) ⟨ts ++ [e], e⟩ with
  | stuck c errors =>
    rw [hp] at h hset
    cases h
    exact absurd hr hset.2
  | endless => rw [hp] at h; cases h
  | done statements c errors =>
    rw [hp] at h
    cases h
    obtain rfl : errors = [] := hr
    obtain ⟨d, htree, htake, hnearest, hatEnd⟩ := Rule.program_reads hp
    have hd := htake.uses hended
    refine ⟨d, ?_, hnearest, htree⟩
    -- both lists of tokens reach up to the first end of the source
    have hpeek := Cursor.isEnd_of_atEnd (hd.ended hended) hatEnd
    obtain ⟨rest, last⟩ := c
    cases rest with
    | nil => obtain ⟨_, ht, _⟩ := hd.ended hended; cases ht
    | cons t rest =>
      have hrest : ts ++ [e] = d.tokens ++ t :: rest := hd.rest
      have htake := congrArg (List.takeWhile fun t => !t.kind.isEnd) hrest
      rw [List.takeWhile_append_of_pos, List.takeWhile_append_of_pos] at htake
      · simpa [Kind.isEnd_iff.2 he, show t.kind.isEnd = true from hpeek] using htake.symm
      · intro u hu; simp [hd.inner u hu]
      · intro u hu
        have hne : ¬ u.kind.isEnd = true := fun hk => hts u hu (Kind.isEnd_iff.1 hk)
        simpa using hne

end Stream

/-- **The parser accepts exactly its grammar, and builds exactly the grammar's tree.**  For tokens
with no end of the source among them and an end of the source behind them, parsing has an answer. It
reports no errors if and only if the tokens can be derived as a program.  In that case there is a
derivation of them with the nearest `else`, and the statements are the tree of every such
derivation. -/
theorem parse_iff_derivable (ts : List Token) (e : Token) (hts : ∀ t ∈ ts, t.kind ≠ .endOfFile)
    (he : e.kind = .endOfFile) :
    ∃ r, parse? (ts ++ [e]) = some r ∧
      (r.errors = [] ↔ ∃ d : Derivation .program, d.tokens = ts) ∧
      (r.errors = [] → ∃ d : Derivation .program,
        d.tokens = ts ∧ d.NearestElse ∧ d.tree = r.statements) ∧
      ∀ d : Derivation .program, d.tokens = ts → d.NearestElse → d.tree = r.statements := by
  have hguard : ∀ last ∈ (ts ++ [e]).getLast?, Cursor.Guarded ⟨ts ++ [e], last⟩ :=
    fun _ _ => .inl ⟨e, by simp, Kind.isEnd_iff.2 he⟩
  obtain ⟨r, hr⟩ := exists_parse hguard
  have hparse : ∀ d : Derivation .program, d.tokens = ts → d.NearestElse →
      r = ⟨d.tree, []⟩ := by
    rintro d rfl hd
    rw [parse?_of_derivation d hd he] at hr
    exact (Option.some.inj hr).symm
  refine ⟨r, hr, ⟨fun herr => ?_, ?_⟩, exists_derivation_of_parse? hts he hr, ?_⟩
  · obtain ⟨d, htokens, -, -⟩ := exists_derivation_of_parse? hts he hr herr
    exact ⟨d, htokens⟩
  · rintro ⟨d, htokens⟩
    obtain ⟨d', htokens', hd'⟩ := d.exists_nearestElse
    rw [hparse d' (htokens'.trans htokens) hd']
  · intro d htokens hd
    rw [hparse d htokens hd]

/-! ### An `else` inside of a loop -/

/-- A token on the first line. -/
def onFirstLine (kind : Kind) (lexeme : String) : Tok kind := ⟨⟨kind, lexeme, 1⟩, rfl⟩

/-- A variable on the first line. -/
def variableOnFirstLine (name : String) : Name := ⟨onFirstLine (.identifier name) name, name, rfl⟩

/-- A variable as an expression. -/
def variableExpression (name : String) : Expression :=
  .operand <| .first <| .first (l := .and) <| .first (l := .equality) <|
    .first (l := .comparison) <| .first (l := .term) <| .first (l := .factor) <|
    .bare <| .reference (variableOnFirstLine name)

/-- The statement `if (a) for (;; b) if (c) d; else e;`, with the `else` at the second `if`. -/
def nestedIfs : Derivation .program :=
  let opening := onFirstLine (.symbol .leftParen) "("
  let closing := onFirstLine (.symbol .rightParen) ")"
  let finish := onFirstLine (.symbol .semicolon) ";"
  let start := onFirstLine (.keyword .if) "if"
  let inner := Derivation.ifElse start opening (variableExpression "c") closing
    (.expression (variableExpression "d") finish) (onFirstLine (.keyword .else) "else")
    (.expression (variableExpression "e") finish)
  .cons (.statement (.ifOnly start opening (variableExpression "a") closing
    (.for (onFirstLine (.keyword .for) "for") opening (.none finish) none finish
      (some (variableExpression "b")) closing inner))) .empty

/-- The `else` is read as part of the second `if`, inside of the loop's block. -/
theorem parse_nestedIfs :
    ∃ r, parse? (nestedIfs.tokens ++ [⟨.endOfFile, "", 1⟩]) = some r ∧ r.errors = [] ∧
      r.statements =
        let ref (name : String) : Expr := .reference (variableOnFirstLine name)
        [.branch (ref "a") (.loop (.literal (.boolean true)) (.block
          [.branch (ref "c") (.expression (ref "d")) (some (.expression (ref "e"))),
            .expression (ref "b")])) none] := by
  obtain ⟨r, hr, hderivable, -, htree⟩ :=
    parse_iff_derivable nestedIfs.tokens ⟨.endOfFile, "", 1⟩ (by decide) rfl
  have hnearest : nestedIfs.NearestElse := ⟨⟨rfl, trivial, trivial⟩, trivial⟩
  exact ⟨r, hr, hderivable.2 ⟨nestedIfs, rfl⟩, (htree nestedIfs rfl hnearest).symm⟩

end Scriptlet
