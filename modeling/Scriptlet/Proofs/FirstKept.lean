import Scriptlet.Proofs.Soundness
import Scriptlet.Proofs.Walk

/-!
# The line of an expression

Some tokens of an expression leave no trace in its tree: the literals, of which only the values
stay, and the parentheses.  All others are kept, as names or as operators.  An expression is blamed
on the line of the first token that it keeps.

The tree does not have its tokens in a row.  A chain of operators leans to the left, so its first
operator is at the bottom, and the search for a line has to fall back from an operand without one to
the operator behind it.  That it comes out at the right token is a matter of the grammar: in every
production the operands stand where the search looks for them.

* `Kind.isKept` : whether tokens of a kind are kept;
* `Grammar.ExprDerivation.line?_tree` : the line of a derived tree;
* `line_is_first_kept` : **what is read without complaints, as an expression or as an operand, has
  the line of the first token that is kept**, of all tokens that were read.
-/

namespace Scriptlet

/-- Whether tokens of a kind are kept in the tree of an expression: all but literals and
parentheses. -/
def Kind.isKept : Kind → Bool
  | .number _ | .string _ | .keyword .true | .keyword .false | .keyword .nil => false
  | .symbol .leftParen | .symbol .rightParen => false
  | _ => true

/-- The line of the first token that is kept. -/
def firstKept? (tokens : List Token) : Option Nat :=
  (tokens.find? fun t => t.kind.isKept).map Token.line

section

variable {t : Token} {ts us : List Token}

theorem firstKept?_cons_of_kept (h : t.kind.isKept = true) :
    firstKept? (t :: ts) = some t.line := by
  rw [firstKept?, List.find?_cons_of_pos (by exact h), Option.map_some]

theorem firstKept?_cons_of_dropped (h : t.kind.isKept = false) :
    firstKept? (t :: ts) = firstKept? ts := by
  rw [firstKept?, List.find?_cons_of_neg (by simp [h]), firstKept?]

theorem firstKept?_append : firstKept? (ts ++ us) = (firstKept? ts).or (firstKept? us) := by
  simp only [firstKept?, List.find?_append, Option.map_or]

theorem firstKept?_eq_none_iff : firstKept? ts = none ↔ ∀ t ∈ ts, t.kind.isKept = false := by
  simp [firstKept?]

end

/-! ### Derived trees -/

namespace Grammar

theorem line?_node (l : Level) (left : Expr) (operator : Token) (right : Expr) :
    (node l left operator right).line? = left.line?.or (some operator.line) := by
  cases l <;> rfl

theorem isKept_of_mem_operators {l : Level} {kind : Kind} (h : kind ∈ operators l) :
    kind.isKept = true := by
  cases l <;> simp only [operators, List.mem_cons, List.not_mem_nil, or_false] at h <;>
    rcases h with rfl | rfl | rfl | rfl <;> rfl

theorem isKept_of_mem_unaryOperators {kind : Kind} (h : kind ∈ unaryOperators) :
    kind.isKept = true := by
  simp only [unaryOperators, List.mem_cons, List.not_mem_nil, or_false] at h
  rcases h with rfl | rfl <;> rfl

/-- **A derived tree has the line of the first of its tokens that is kept.** -/
theorem ExprDerivation.line?_tree {r : Rank} (d : ExprDerivation r) :
    d.tree.line? = firstKept? d.tokens := by
  induction d with
  | assign name equal value _ | reference name =>
    obtain ⟨name, text, hname⟩ := name
    exact (firstKept?_cons_of_kept (by rw [hname]; rfl)).symm
  | operand e ih | first e ih | bare e ih => exact ih
  | more left operator right ihl _ =>
    -- the operator counts if nothing to its left does; what is right of it never does
    rw [tree, line?_node, tokens, firstKept?_append, ihl,
      firstKept?_cons_of_kept (isKept_of_mem_operators operator.property)]
  | unary operator e _ =>
    exact (firstKept?_cons_of_kept (isKept_of_mem_unaryOperators operator.property)).symm
  | number t | string t | true t | false t | nil t =>
    rw [tokens, firstKept?_cons_of_dropped (by rw [t.property]; rfl)]
    rfl
  | group opening e closing ih =>
    rw [tree, Expr.line?, tokens, firstKept?_cons_of_dropped (by rw [opening.property]; rfl),
      firstKept?_append, firstKept?_cons_of_dropped (by rw [closing.property]; rfl), ih]
    exact Option.or_none.symm

end Grammar

/-! ### Trees that are read -/

open Grammar Walk

/-- The rule that reads expressions of a rank.  One number bounds what is read inside of
parentheses, the other one how often the rule itself goes on. -/
def Rule.ofRank (inner bound : Nat) : Rank → Rule Expr
  | .expression => expression bound
  | .level l => operand (unary (expression inner) bound) bound (levelsOf (.level l))
  | .unary => unary (expression inner) bound
  | .primary => primary (expression inner)

theorem Rule.ofRank_readsOnly (inner bound : Nat) (r : Rank) :
    (ofRank inner bound r).ReadsOnly r := by
  have hinner := expression_readsOnly inner
  cases r with
  | expression => exact expression_readsOnly bound
  | level l => exact operand_readsOnly bound (unary_readsOnly hinner bound) l
  | unary => exact unary_readsOnly hinner bound
  | primary => exact primary_readsOnly hinner

/-- A token that is seen again makes no difference. -/
theorem firstKept?_append_replicate {ts : List Token} {n : Nat} {t : Token} (h : n ≠ 0 → t ∈ ts) :
    firstKept? (ts ++ List.replicate n t) = firstKept? ts := by
  cases hts : firstKept? ts with
  | some line => rw [firstKept?_append, hts, Option.some_or]
  | none =>
    rw [firstKept?_append, hts, Option.none_or, firstKept?_eq_none_iff]
    intro u hu
    obtain ⟨hn, rfl⟩ := List.mem_replicate.1 hu
    exact firstKept?_eq_none_iff.1 hts u (h hn)

section

variable {tokens : List Token} {last : Token} {i j : Nat}

theorem take_of_drop_eq_append {us : List Token} (hi : i < tokens.length)
    (h : tokens.drop i = us ++ tokens.drop j) : (tokens.drop i).take (j - i) = us := by
  have hlength := congrArg List.length h
  rw [List.length_append, List.length_drop, List.length_drop] at hlength
  rw [h]
  rcases Nat.lt_or_ge tokens.length j with hj | hj
  · -- a position behind the stream is as good as the one at its end
    rw [List.drop_eq_nil_of_le (Nat.le_of_lt hj), List.append_nil]
    exact List.take_of_length_le (by omega)
  · exact List.take_left' (by omega)

/-- **An expression has the line of the first token that it keeps.**  Let a rule of expressions, of
whatever rank, read from a position of a stream to another one without a complaint.  The line of
what it has read is that of the first token between the two positions that is neither a literal nor
a parenthesis; it has none if all of these tokens are. -/
theorem line_is_first_kept (hlast : tokens.getLast? = some last) (hi : i < tokens.length)
    {r : Rank} {inner bound : Nat} {e : Expr}
    (h : Rule.ofRank inner bound r (cursorAt tokens last i) =
      .done e (cursorAt tokens last j) []) :
    e.line? = firstKept? ((tokens.drop i).take (j - i)) ∧
    (e.line? = none ↔ ∀ t ∈ (tokens.drop i).take (j - i), t.kind.isKept = false) := by
  obtain ⟨d, rfl, htakes⟩ := Rule.ofRank_readsOnly inner bound r _ _ _ h
  obtain ⟨us, n, htokens, huses, hrest⟩ := htakes.exists_uses
  have hrange : (tokens.drop i).take (j - i) = us := take_of_drop_eq_append hi huses.rest
  -- if the last token was taken again, it had been reached, so it is among those used up
  have hseen : n ≠ 0 → last ∈ us := by
    intro hn
    have hall : tokens.drop i = us := by
      have huse := huses.rest
      rwa [hrest hn, List.append_nil] at huse
    rw [← hall]
    exact List.mem_of_getLast? (by rw [List.getLast?_drop, if_neg (by omega), hlast])
  have hline : d.tree.line? = firstKept? us := by
    rw [d.line?_tree, htokens]
    exact firstKept?_append_replicate hseen
  rw [hrange, hline]
  exact ⟨rfl, firstKept?_eq_none_iff⟩

end

/-- Behind a group without a line, the operator is the first token that is kept. -/
theorem line_of_comparedGroup :
    let finish : Token := ⟨.symbol .semicolon, ";", 4⟩
    let tokens : List Token :=
      [⟨.symbol .leftParen, "(", 1⟩, ⟨.keyword .nil, "nil", 1⟩, ⟨.symbol .rightParen, ")", 2⟩,
        ⟨.symbol .equalEqual, "==", 3⟩, ⟨.identifier "a", "a", 4⟩, finish]
    ∃ e, Rule.ofRank 6 7 .expression (cursorAt tokens finish 0) =
      .done e (cursorAt tokens finish 5) [] ∧ e.line? = some 3 := by
  intro finish tokens
  have h : Rule.ofRank 6 7 .expression (cursorAt tokens finish 0) =
      .done _ (cursorAt tokens finish 5) [] := rfl
  exact ⟨_, h, (line_is_first_kept rfl (by decide) h).1⟩

end Scriptlet
