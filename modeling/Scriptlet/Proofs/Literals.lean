import Scriptlet.Proofs.ForLoop
import Scriptlet.Proofs.Sessions
import Scriptlet.Proofs.Signs

/-!
# Printed literals are read back

A literal that is printed as a tree, with a semicolon behind it, is a source of one statement, and
that statement is the literal again.  This holds of all values but the numbers that are negative or
not finite, and of texts that do not hold a quote; whatever else a text holds, be it newlines, the
beginning of a comment or words of the language, comes back as it is.

There are no negative literals.  A negative number is printed with a minus sign, which is read as an
operator before its size, and evaluates to the number.

* `Segment.Denotes` : a segment is a literal for a value and ends before a semicolon;
* `Value.exists_denotes` : every value that can be written is printed as one;
* `check_literal`, `check_negated` : a literal for a value, without and with a minus sign before it,
  and a semicolon;
* `literals_read_back` : **printed literals read back as themselves.**
-/

namespace Scriptlet

/-- Values that literals can stand for. -/
def Value.Writable : Value → Prop
  | nil => True
  | boolean _ => True
  | number x => x.isFinite = true ∧ ¬ Number.Negative x
  | string s => '"' ∉ s.toList

/-! ### Segments of literals -/

namespace Segment

/-- A segment is a literal for a value, whatever stands behind it, and ends before a semicolon. -/
structure Denotes (s : Segment) (v : Value) : Prop where
  /-- It can stand before anything. -/
  stands : ∀ rest, s.Stands rest
  /-- A semicolon does not prolong it. -/
  ends : s.Ends [';']
  /-- It is a literal for the value. -/
  kind : ∃ kind, s.kind? = some kind ∧ kind.literal? = some v

theorem letters_of_keyword (k : Keyword) :
    k.text.toList ≠ [] ∧ ∀ c ∈ k.text.toList, isLetter c = true := by
  rw [← List.all_eq_true]
  cases k <;> decide +kernel

theorem denotes_keyword (k : Keyword) {v : Value} (hv : (Kind.keyword k).literal? = some v) :
    (word k.text.toList).Denotes v := by
  obtain ⟨hne, hletters⟩ := letters_of_keyword k
  obtain ⟨c, name, htext⟩ := List.exists_cons_of_ne_nil hne
  have hkeyword : Keyword.ofText? k.text = some k := by cases k <;> decide
  refine ⟨fun rest => .inl ?_, ?_, .keyword k, ?_, hv⟩
  · rw [htext] at hletters ⊢
    exact .word (.inl (hletters c List.mem_cons_self)) fun d hd =>
      .inl (hletters d (List.mem_cons_of_mem _ hd))
  · rintro _ ⟨⟩
    decide
  · rw [kind?, String.ofList_toList, hkeyword]

theorem denotes_string {s : String} (h : '"' ∉ s.toList) :
    (string s.toList).Denotes (.string s) where
  stands _ := .inl (.string h)
  ends := trivial
  kind := ⟨_, rfl, by rw [String.ofList_toList]; rfl⟩

theorem denotes_digits (d : Decimal) :
    (number d.digits.1 d.digits.2).Denotes (.number (Number.ofDecimal d)) where
  stands := stands_of_isToken rfl d.stands_digits
  ends := by
    have hbreaks : Breaks Char.isDigit [';'] := by
      rintro _ ⟨⟩
      decide
    cases d.digits.2 with
    | nil => exact ⟨hbreaks, nofun⟩
    | cons c fraction => exact hbreaks
  kind := ⟨_, rfl, by rw [Decimal.ofDigits_digits]; rfl⟩

/-- A minus sign ends wherever it stands. -/
theorem ends_minus (rest : List Char) : (operator .minus).Ends rest := by
  refine fun c _ => ⟨nofun, fun t => ?_⟩
  cases t <;> exact nofun

end Segment

open Segment

/-- A number that is not negative is printed as a literal for it. -/
theorem Number.exists_denotes {x : Float} (hx : x.isFinite = true) (hneg : ¬ Number.Negative x) :
    ∃ s : Segment, s.Denotes (.number x) ∧ (Number.text x).toList = s.text := by
  have hdenotes := denotes_digits (Binary64.shortest x.toBits.toNat)
  rw [Number.ofDecimal_shortest hx hneg] at hdenotes
  exact ⟨_, hdenotes, by rw [Number.text_of_not_negative hx hneg, Decimal.text_eq]⟩

/-- A value that can be written is printed as a literal for it. -/
theorem Value.exists_denotes {v : Value} (hv : v.Writable) :
    ∃ s : Segment, s.Denotes v ∧ (Expr.literal v).text.toList = s.text := by
  cases v with
  | nil => exact ⟨_, denotes_keyword .nil rfl, rfl⟩
  | boolean b =>
    cases b with
    | true => exact ⟨_, denotes_keyword .true rfl, rfl⟩
    | false => exact ⟨_, denotes_keyword .false rfl, rfl⟩
  | number x => exact Number.exists_denotes hv.1 hv.2
  | string s => exact ⟨_, denotes_string hv, by simp [Expr.text, Segment.text]⟩

/-! ### Statements of one literal -/

namespace Grammar

/-- Operators before an operand, as a whole expression. -/
def ExprDerivation.ofUnary (d : ExprDerivation .unary) : Expression :=
  .operand <| .first <| .first (l := .and) <| .first (l := .equality) <|
    .first (l := .comparison) <| .first (l := .term) <| .first (l := .factor) d

end Grammar

open Grammar

/-- A source of a single statement. -/
theorem check_eq_of_scan {source : String} {last : Token} (e : Expression)
    (finish : Tok (.symbol .semicolon)) (hlast : last.kind = .endOfFile)
    (hscan : scan source = ⟨e.tokens ++ [finish.val, last], []⟩) :
    check source = .program [.expression e.tree] := by
  have hparse := parse?_of_statement (.expression e finish) trivial hlast
  rw [Derivation.tokens, List.append_assoc] at hparse
  rw [check_eq_program_iff, hscan]
  exact ⟨rfl, hparse⟩

section

variable {s : Segment} {v : Value} {source : String}

theorem Segment.Denotes.isFault (h : s.Denotes v) : s.isFault = false := by
  obtain ⟨kind, hkind, -⟩ := h.kind
  cases s <;> first | rfl | cases hkind

theorem Segment.Denotes.split (h : s.Denotes v) :
    split (s.text ++ [';']) = [s, operator .semicolon] := by
  have hfinish : Stands (operator .semicolon) [] := .inl .operator
  have hsplit := split_append hfinish nofun
  rw [split_append (h.stands _) h.ends]
  rw [List.append_nil, Segment.split] at hsplit
  exact congrArg _ hsplit

/-- The token of a literal, on the line on which it ends. -/
theorem Segment.Denotes.exists_token (h : s.Denotes v) (line : Nat) :
    ∃ d : ExprDerivation .primary, d.tree = .literal v ∧
      ∃ t, s.token? line = some t ∧ d.tokens = [t] := by
  obtain ⟨kind, hkind, hliteral⟩ := h.kind
  obtain ⟨d, htree, htokens⟩ :=
    Rule.exists_literal (t := ⟨kind, String.ofList s.text, line⟩) hliteral
  exact ⟨d, htree, _, by rw [token?, hkind, Option.map_some], htokens⟩

/-- **A literal for a value, with a semicolon behind it**, is a statement of that value. -/
theorem check_literal (h : s.Denotes v) (hsource : source.toList = s.text ++ [';']) :
    check source = .program [.expression (.literal v)] := by
  obtain ⟨d, htree, t, ht, htokens⟩ := h.exists_token (1 + s.newlines)
  have herrors := collect_error?_eq_nil [s, operator .semicolon]
    (List.forall_mem_cons.2 ⟨h.isFault, List.forall_mem_singleton.2 rfl⟩) 1
  have hscan : scan source = ⟨[t, ⟨.symbol .semicolon, ";", 1 + s.newlines⟩,
      ⟨.endOfFile, "", 1 + source.toList.count '\n'⟩], []⟩ := by
    rw [scan_eq, hsource, h.split, herrors, collect, ht]
    rfl
  have hcheck := check_eq_of_scan (.ofUnary (.bare d)) ⟨_, rfl⟩ rfl
    (hscan.trans (by rw [show (ExprDerivation.ofUnary (.bare d)).tokens = [t] from htokens]; rfl))
  rw [hcheck]
  exact congrArg (fun e => Checked.program [.expression e]) htree

/-- A minus sign before it is an operator on it. -/
theorem check_negated (h : s.Denotes v) (hsource : source.toList = '-' :: s.text ++ [';']) :
    check source =
      .program [.expression (.unary ⟨.symbol .minus, "-", 1⟩ (.literal v))] := by
  obtain ⟨d, htree, t, ht, htokens⟩ := h.exists_token (1 + s.newlines)
  have hminus : split ('-' :: s.text ++ [';']) = [operator .minus, s, operator .semicolon] := by
    rw [← h.split]
    exact split_append (.inl .operator) (ends_minus _)
  have herrors := collect_error?_eq_nil [operator .minus, s, operator .semicolon]
    (List.forall_mem_cons.2 ⟨rfl, List.forall_mem_cons.2
      ⟨h.isFault, List.forall_mem_singleton.2 rfl⟩⟩) 1
  have hscan : scan source = ⟨[⟨.symbol .minus, "-", 1⟩, t,
      ⟨.symbol .semicolon, ";", 1 + s.newlines⟩,
      ⟨.endOfFile, "", 1 + source.toList.count '\n'⟩], []⟩ := by
    rw [scan_eq, hsource, hminus, herrors, collect, collect,
      show 1 + (operator .minus).newlines = 1 from rfl, ht]
    rfl
  let e : ExprDerivation .unary := .unary ⟨⟨.symbol .minus, "-", 1⟩, by decide⟩ (.bare d)
  have hcheck := check_eq_of_scan (.ofUnary e) ⟨_, rfl⟩ rfl
    (hscan.trans (by
      rw [show (ExprDerivation.ofUnary e).tokens = [⟨.symbol .minus, "-", 1⟩, t] from
        congrArg _ htokens]
      rfl))
  rw [hcheck]
  exact congrArg (fun e => Checked.program [.expression (.unary ⟨.symbol .minus, "-", 1⟩ e)]) htree

end

/-! ### Printed literals -/

/-- **Printed literals read back as themselves.**  The text of a literal and a semicolon are a
source without errors.  It has one statement, which is the literal again: for `nil`, for the truth
values, for finite numbers that are neither negative nor the negative zero, and for all texts
without a quote.  For a finite number that is negative, or the negative zero, the statement is a
minus sign before its size, and the value of that is the number, in every scope. -/
theorem literals_read_back :
    (∀ v : Value, v.Writable →
      check ((Expr.literal v).text ++ ";") = .program [.expression (.literal v)]) ∧
    ∀ x : Float, x.isFinite = true → Number.Negative x →
      let negated := Expr.unary ⟨.symbol .minus, "-", 1⟩ (.literal (.number x.abs))
      check ((Expr.literal (.number x)).text ++ ";") = .program [.expression negated] ∧
      ∀ here store, eval here negated store = .ok (.number x) store := by
  constructor
  · intro v hv
    obtain ⟨s, hs, htext⟩ := Value.exists_denotes hv
    exact check_literal hs (by rw [String.toList_append, htext]; rfl)
  · intro x hx hneg
    obtain ⟨hfinite, hpos, hopposite, -⟩ := Number.abs_of_negative hx hneg
    obtain ⟨s, hs, htext⟩ := Number.exists_denotes hfinite hpos
    have hprinted : (Expr.literal (.number x)).text = "-" ++ Number.text x.abs :=
      Number.text_of_negative hx hneg
    refine ⟨check_negated hs ?_, fun here store => ?_⟩
    · rw [hprinted, String.toList_append, String.toList_append, htext]
      rfl
    · have happly : applyUnary ⟨.symbol .minus, "-", 1⟩ (.number x.abs) = .ok (.number (-x.abs)) :=
        rfl
      rw [hopposite] at happly
      rw [eval, bind_of_ok (show eval here (.literal _) store = .ok _ store from rfl), happly]
      rfl

/-- A text that holds what looks like a comment and a statement, and the negative zero. -/
theorem comment_and_negZero_read_back :
    check ((Expr.literal (.string "// nil\n;")).text ++ ";") =
      .program [.expression (.literal (.string "// nil\n;"))] ∧
    let negated := Expr.unary ⟨.symbol .minus, "-", 1⟩ (.literal (.number (-0 : Float).abs))
    check ((Expr.literal (.number (-0))).text ++ ";") = .program [.expression negated] ∧
    eval 0 negated {} = .ok (.number (-0)) {} := by
  obtain ⟨htext, hnumber⟩ := literals_read_back
  have hzero := hnumber (-0) rfl (.inr rfl)
  exact ⟨htext _ (by simp [Value.Writable]), hzero.1, hzero.2 0 {}⟩

end Scriptlet
