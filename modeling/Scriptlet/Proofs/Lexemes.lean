import Scriptlet.Proofs.ReadBack
import Scriptlet.Proofs.Layout

/-!
# Tokens are told by their lexemes

A token that has been scanned says with its lexeme what it is: if the lexeme is scanned alone, then
the same token is found.  Only its line is lost.  The text of a number is not always the lexeme that
it was read from, but it is one that is read as the same number.

* `Token.ofText?` : the one token that a text is;
* `Token.Scanned` : a token is one of those that scanning finds, as those of a source are;
* `Token.Scanned.ofText?` : **a scanned token is given back by its lexeme**;
* `Token.scanned_number` : **a finite number is given back by its text.**
-/

namespace Scriptlet

/-- Whether tokens of a kind are all written alike. -/
def Kind.isFixed : Kind → Bool
  | symbol _ | keyword _ => true
  | _ => false

namespace Token

open Segment

/-- The one token that a text is, on no line. -/
def ofText? (text : String) : Option Token :=
  match split text.toList with
  | [s] => s.token? 0
  | _ => none

/-- A token is one of those that scanning finds. -/
def Scanned (t : Token) : Prop := ∃ s rest line, Stands s rest ∧ s.token? line = some t

theorem scanned_of_segment {s : Segment} {rest : List Char} {kind : Kind} (hs : s.Stands rest)
    (hkind : s.kind? = some kind) : Scanned ⟨kind, String.ofList s.text, 0⟩ :=
  ⟨s, rest, 0, hs, by rw [token?, hkind]; rfl⟩

namespace Scanned

variable {t : Token}

/-- **A scanned token is given back by its lexeme**, but for its line. -/
theorem ofText? (h : t.Scanned) : ofText? t.lexeme = some (t.mapLine noLine) := by
  obtain ⟨s, rest, line, hstands, hs⟩ := h
  obtain ⟨kind, hkind, rfl⟩ := Option.map_eq_some_iff.1 hs
  have htoken : s.isToken = true := by rw [← kind?_isSome_iff, hkind]; rfl
  have hsplit := split_append (stands_of_isToken htoken hstands []) (ends_of_blank htoken nofun)
  rw [List.append_nil, split] at hsplit
  rw [Token.ofText?, String.toList_ofList, hsplit]
  simp only [token?, hkind]
  rfl

theorem exists_isTokenOf (h : t.Scanned) : ∃ s rest, Stands s rest ∧ s.IsTokenOf t := by
  obtain ⟨s, rest, line, hstands, hs⟩ := h
  obtain ⟨kind, hkind, rfl⟩ := Option.map_eq_some_iff.1 hs
  exact ⟨s, rest, hstands, rfl, kind?_means hkind⟩

/-- Symbols and keywords are called as they are written. -/
theorem lexeme_eq_name (h : t.Scanned) (hkind : t.kind.isFixed = true) :
    t.lexeme = t.kind.name := by
  obtain ⟨s, rest, -, hlexeme, hmeans⟩ := h.exists_isTokenOf
  rw [hlexeme]
  generalize t.kind = kind at hkind hmeans
  cases hmeans with
  | keyword k hk => exact hk.symm
  | operator => exact String.ofList_toList
  | _ => cases hkind

end Scanned

/-- The text of a finite number is a literal for the number. -/
theorem scanned_number {d : Decimal} (h : (Number.ofDecimal d).isInf = false) :
    Scanned ⟨.number (Number.ofDecimal d), Number.text (Number.ofDecimal d), 0⟩ := by
  have hscanned := scanned_of_segment (Binary64.shortest d.bits).stands_digits rfl
  rw [Decimal.ofDigits_digits, ← Decimal.text_eq, String.ofList_toList, ← Number.text_ofDecimal h,
    Number.ofDecimal, Binary64.bits_shortest (Number.bits_lt_of_finite h)] at hscanned
  exact hscanned

end Token

/-- The tokens of a source are scanned, its end apart. -/
theorem scanned_of_mem_scan (source : String) : ∀ t ∈ (scan source).tokens.dropLast, t.Scanned := by
  rw [dropLast_tokens]
  have hstands : ∀ s ∈ Segment.split source.toList, ∃ rest, s.Stands rest :=
    Segment.stands_of_mem_split
  generalize Segment.split source.toList = segments at hstands
  generalize 1 = line
  induction segments generalizing line with
  | nil => exact nofun
  | cons s rest ih =>
    intro t ht
    rcases List.mem_append.1 ht with ht | ht
    · obtain ⟨behind, hs⟩ := hstands s List.mem_cons_self
      exact ⟨s, behind, _, hs, Option.mem_toList.1 ht⟩
    · exact ih (fun s hs => hstands s (List.mem_cons_of_mem _ hs)) _ t ht

end Scriptlet
