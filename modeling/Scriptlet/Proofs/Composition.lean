import Scriptlet.Proofs.Recovery

/-!
# Programs behind programs

Where one program ends and another one starts, the parser sees the first token of the second one
instead of an end of the source.  Of everything that it reads of the first program only an `if` at
its end asks for that token, to see whether an `else` follows.  So if it is no `else`, the first
program is read as if it stood alone; and what is behind it is too, with all its errors, since
nothing is remembered.

* `parse?_derivation_append` : the tokens of a derivation may be put before any others that do not
  start with `else`;
* `parsing_is_compositional` : **error-free tokens and what is behind them are parsed one by one.**
-/

namespace Scriptlet

open Grammar Rule

variable {us : List Token} {e e' : Token}

/-- The tokens of a derivation may be put before others, whatever errors these have. -/
theorem parse?_derivation_append (d : Derivation .program) (hd : d.NearestElse)
    (he' : e'.kind = .endOfFile) (hfirst : ∀ t ∈ (us ++ [e']).head?, t.kind ≠ .keyword .else)
    {r : Parse} (hr : parse? (us ++ [e']) = some r) :
    parse? (d.tokens ++ us ++ [e']) =
      some ⟨(show List Stmt from d.tree) ++ r.statements, r.errors⟩ := by
  obtain ⟨parsed, finish, hparse, hbehind⟩ := exists_parse?_eq us he'
  obtain rfl : parsed = r := Option.some.inj (hparse.symm.trans hr)
  have hreads : ReadsProgram d.tokens d.tree := readsPhrase_tree d hd
  rw [parse?_append_end, List.append_assoc]
  generalize hbound : (d.tokens ++ (us ++ [e'])).length + 1 = bound
  rw [List.length_append] at hbound
  obtain ⟨j, hj, hread⟩ :=
    hreads bound bound (fun _ => false) (by omega) (Nat.le_refl _) (fun _ => nofun)
  have helse : (Cursor.mk (us ++ [e']) e').peek.kind ≠ .keyword .else := by
    cases us with
    | nil => exact hfirst e' rfl
    | cons t us => exact hfirst t rfl
  -- what is behind has a bound that is larger than it needs
  have hboth := hread (bound - j) (us ++ [e']) e' parsed.statements finish parsed.errors helse
    (hbehind (bound - j) bound (by omega) (by omega))
  have hprogram : (program bound : Rule _) ⟨d.tokens ++ (us ++ [e']), e'⟩ =
      .done ((show List Stmt from d.tree) ++ parsed.statements) finish parsed.errors := by
    rwa [Nat.sub_add_cancel (by omega)] at hboth
  rw [hprogram]

/-- **Parsing is compositional at the boundaries of declarations.**  Take tokens that are parsed to
some statements without an error, with an end of the source behind them; and others, with an end of
the source behind them, that do not start with `else`.  One behind the other they are parsed to the
statements of both, with the errors of the second ones. -/
theorem parsing_is_compositional (ts us : List Token) (e e' : Token)
    (hts : ∀ t ∈ ts, t.kind ≠ .endOfFile) (he : e.kind = .endOfFile) (he' : e'.kind = .endOfFile)
    (hfirst : ∀ t ∈ (us ++ [e']).head?, t.kind ≠ .keyword .else) (p q : List Stmt)
    (errors : List SyntaxError) (hp : parse? (ts ++ [e]) = some ⟨p, []⟩)
    (hq : parse? (us ++ [e']) = some ⟨q, errors⟩) :
    parse? (ts ++ us ++ [e']) = some ⟨p ++ q, errors⟩ := by
  obtain ⟨d, rfl, hnearest, rfl⟩ := exists_derivation_of_parse? hts he hp rfl
  exact parse?_derivation_append d hnearest he' hfirst hq

/-- The tokens of `if (a) b;`. -/
def openIf : List Token :=
  [⟨.keyword .if, "if", 1⟩, ⟨.symbol .leftParen, "(", 1⟩, ⟨.identifier "a", "a", 1⟩,
    ⟨.symbol .rightParen, ")", 1⟩, ⟨.identifier "b", "b", 1⟩, ⟨.symbol .semicolon, ";", 1⟩]

/-- The `if` has no `else`, and the statement behind it lacks its value. -/
theorem openIf_then_valuelessPrint :
    (∀ t ∈ openIf, t.kind ≠ .endOfFile) ∧
    (∀ t ∈ (valuelessPrint ++ ([⟨.endOfFile, "", 1⟩] : List Token)).head?,
      t.kind ≠ .keyword .else) ∧
    parse? (openIf ++ valuelessPrint ++ [⟨.endOfFile, "", 1⟩]) =
      some ⟨[.branch (.reference ⟨.identifier "a", "a", 1⟩)
          (.expression (.reference ⟨.identifier "b", "b", 1⟩)) none,
        .expression (.reference ⟨.identifier "a", "a", 1⟩)],
        [⟨1, .lexeme ";", .expectExpression⟩]⟩ := by
  have hinner : ∀ t ∈ openIf, t.kind ≠ .endOfFile := by decide
  have hfirst : ∀ t ∈ (valuelessPrint ++ ([⟨.endOfFile, "", 1⟩] : List Token)).head?,
      t.kind ≠ .keyword .else := by
    rintro t ht
    cases ht
    nofun
  exact ⟨hinner, hfirst, parsing_is_compositional openIf valuelessPrint ⟨.endOfFile, "", 1⟩
    ⟨.endOfFile, "", 1⟩ hinner rfl rfl hfirst _ _ _ rfl rfl⟩

end Scriptlet
