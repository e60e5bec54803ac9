import Scriptlet.Proofs.Munch

/-!
# The lines of tokens and errors

A scanner counts the newlines that it passes: between tokens, behind comments and inside of texts.
What it reports carries the count at that moment.  Said without a counter, a line is one more than
the number of newlines up to a place in the source, and places are told by the cut of the source
into segments.

* `Segment.places` : the segments of a text, each with the text before it;
* `Segment.IsTokenAt`, `Segment.IsErrorAt` : the token and the error of a segment at its place;
* `Segment.forall₂_places` : what is collected by counting is what belongs to the places;
* `lines_are_exact` : **every token and every error is on the line where it stands in the source**,
  and so they are in the order of their lines.
-/

namespace Scriptlet

namespace Segment

/-! ### Places -/

/-- Segments in a row, each with the text before it. -/
def places (before : List Char) : List Segment → List (List Char × Segment)
  | [] => []
  | s :: rest => (before, s) :: places (before ++ s.text) rest

/-- A token is that of a segment at its place, and it is on the line on which the segment ends. -/
structure IsTokenAt (place : List Char × Segment) (t : Token) : Prop where
  /-- It has the text and the kind of the segment. -/
  isTokenOf : place.2.IsTokenOf t
  /-- Its line counts the newlines up to the end of the segment. -/
  line : t.line = 1 + (place.1 ++ place.2.text).count '\n'

/-- An error is that of a segment at its place: a stray character on its own line, and a text that
is left open on the last line of all. -/
inductive IsErrorAt (source : List Char) : List Char × Segment → SyntaxError → Prop
  | stray {before : List Char} {c : Char} :
    IsErrorAt source (before, stray c) ⟨1 + before.count '\n', .line, .unexpectedCharacter⟩
  | unterminated {before body : List Char} :
    IsErrorAt source (before, unterminated body)
      ⟨1 + source.count '\n', .line, .unterminatedString⟩

variable {source text : List Char} {segments : List Segment}

theorem exists_append_of_mem_places (h : Munched text segments) :
    ∀ before, ∀ place ∈ places before segments,
      ∃ rest, place.1 ++ place.2.text ++ rest = before ++ text := by
  induction h with
  | nil => exact fun _ => nofun
  | @cons s rest segments _ _ ih =>
    intro before place hplace
    rcases List.mem_cons.1 hplace with rfl | hplace
    · exact ⟨rest, List.append_assoc ..⟩
    · obtain ⟨behind, hbehind⟩ := ih _ place hplace
      exact ⟨behind, hbehind.trans (List.append_assoc ..)⟩

/-- **What is collected by counting newlines belongs to the places of the segments**, if that is so
for each segment where it stands. -/
theorem forall₂_places {α : Type} {p : Segment → Bool} {R : List Char × Segment → α → Prop}
    {f : Nat → Segment → Option α}
    (hf : ∀ before s rest, s.Stands rest → before ++ s.text ++ rest = source →
      (p s = true ∧ ∃ a, f (1 + (before ++ s.text).count '\n') s = some a ∧ R (before, s) a) ∨
        (p s = false ∧ f (1 + (before ++ s.text).count '\n') s = none))
    (h : Munched text segments) : ∀ before, before ++ text = source →
      List.Forall₂ R ((places before segments).filter fun place => p place.2)
        (collect f (1 + before.count '\n') segments) := by
  induction h with
  | nil => exact fun _ _ => .nil
  | @cons s rest segments hs _ ih =>
    intro before hbefore
    rw [← List.append_assoc] at hbefore
    -- the counter behind the segment is the number of newlines up to its end
    have hline : 1 + before.count '\n' + s.newlines = 1 + (before ++ s.text).count '\n' := by
      rw [List.count_append, ← Nat.add_assoc, newlines]
    have hrest := ih (before ++ s.text) hbefore
    rw [collect, hline, places, List.filter_cons]
    rcases hf before s rest hs.1 hbefore with ⟨hp, a, ha, hplace⟩ | ⟨hp, ha⟩
    · rw [if_pos hp, ha]
      exact .cons hplace hrest
    · rw [if_neg (by simp [hp]), ha]
      exact hrest

/-! ### Tokens and errors at their places -/

theorem isTokenAt_token? (before : List Char) (s : Segment) :
    let line := 1 + (before ++ s.text).count '\n'
    (s.isToken = true ∧ ∃ t, s.token? line = some t ∧ IsTokenAt (before, s) t) ∨
      (s.isToken = false ∧ s.token? line = none) := by
  intro line
  rcases isTokenOf_token? line s with ⟨hs, t, ht, hof⟩ | hnone
  · exact .inl ⟨hs, t, ht, hof, line_of_token? line s t ht⟩
  · exact .inr hnone

/-- A newline is no stray character. -/
theorem Stands.stray_ne_newline {c : Char} {rest : List Char} (h : (stray c).Stands rest) :
    c ≠ '\n' := by
  rintro rfl
  rcases h with h | ⟨d, hd, hstray⟩
  · cases h
  · cases hd
    exact hstray (blank '\n') rest (.blank (by decide)) rfl

/-- A text that is left open reaches to the end. -/
theorem Stands.rest_eq_nil {body rest : List Char} (h : (unterminated body).Stands rest) :
    rest = [] := by
  rcases h with h | ⟨c, hc, -⟩
  · cases h; rfl
  · cases hc

theorem isErrorAt_error? {before rest : List Char} {s : Segment} (hs : s.Stands rest)
    (hsource : before ++ s.text ++ rest = source) :
    let line := 1 + (before ++ s.text).count '\n'
    (s.isFault = true ∧ ∃ e, s.error? line = some e ∧ IsErrorAt source (before, s) e) ∨
      (s.isFault = false ∧ s.error? line = none) := by
  intro line
  cases s with
  | stray c =>
    have hline : line = 1 + before.count '\n' := by
      simp [line, text, hs.stray_ne_newline]
    exact .inl ⟨rfl, _, rfl, hline ▸ .stray⟩
  | unterminated body =>
    have hline : line = 1 + source.count '\n' := by
      rw [hs.rest_eq_nil, List.append_nil] at hsource
      rw [← hsource]
    exact .inl ⟨rfl, _, rfl, hline ▸ .unterminated⟩
  | _ => exact .inr ⟨rfl, rfl⟩

end Segment

open Segment

/-- **Lines are exact.**  Cut a source into its segments, and take each of them with the text before
it.  The line of a token is one more than the number of newlines up to its end, so that a text over
several lines is on its last one; the end of the source counts all newlines.  A stray character is
reported on the line on which it stands, and a text that is left open on the line of the end.  Hence
the lines of the tokens never decrease, and neither do those of the errors. -/
theorem lines_are_exact (source : String) :
    ∃ segments, Munched source.toList segments ∧
      (∀ place ∈ places [] segments, ∃ rest, place.1 ++ place.2.text ++ rest = source.toList) ∧
      (∃ tokens, (scan source).tokens =
          tokens ++ [⟨.endOfFile, "", 1 + source.toList.count '\n'⟩] ∧
        List.Forall₂ IsTokenAt ((places [] segments).filter fun place => place.2.isToken) tokens) ∧
      List.Forall₂ (IsErrorAt source.toList)
        ((places [] segments).filter fun place => place.2.isFault) (scan source).errors ∧
      (scan source).tokens.Pairwise (fun t u => t.line ≤ u.line) ∧
      (scan source).errors.Pairwise (fun e e' => e.line ≤ e'.line) := by
  have hcut : Munched source.toList (split source.toList) := munched_iff.2 rfl
  have htokens := forall₂_places (fun before s _ _ _ => isTokenAt_token? before s) hcut [] rfl
  have herrors := forall₂_places (fun _ _ _ hs hsource => isErrorAt_error? hs hsource) hcut [] rfl
  rw [scan_eq]
  refine ⟨_, hcut, exists_append_of_mem_places hcut [], ⟨_, rfl, htokens⟩, herrors, ?_,
    pairwise_collect line_of_error? _ 1⟩
  refine List.pairwise_append.2
    ⟨pairwise_collect line_of_token? _ 1, List.pairwise_singleton .., fun t ht last hlast => ?_⟩
  -- no token is below the end of the source
  rw [List.mem_singleton.1 hlast]
  have hline := (line_of_mem_collect line_of_token? _ 1 t ht).2
  rwa [hcut.flatMap_text] at hline

end Scriptlet
