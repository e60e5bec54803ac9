import Scriptlet.Proofs.Positions
import Scriptlet.Proofs.Seams

/-!
# What cannot be scanned acts as a blank

A character that starts nothing keeps the tokens on its two sides apart, and it is nothing else to
them; so does a text that is left open, which also goes down as many lines as it has newlines.  A
source can be mended by writing a space for each such character and just the newlines for such a
text: then nothing is wrong with it, and all its tokens are as they were.

A token ends where it did, because a change behind it puts a blank there or is too far away to be
seen.

* `Segment.replacement`, `mended` : what is written for a segment, and for a source;
* `Segment.Munched.split_replacement` : **the segments of a mended text**;
* `scan_mended` : **a mended source scans to the same tokens, without errors.**
-/

namespace Scriptlet

namespace Segment

/-! ### What is written instead -/

/-- The text that is written for a segment: a space for an unexpected character, the newlines of a
text that is left open, and anything else as it is. -/
def replacement (s : Segment) : List Char :=
  match s.complaint? with
  | some .unexpectedCharacter => [' ']
  | some .unterminatedString => s.text.filter (· == '\n')
  | _ => s.text

/-- The segments of that text. -/
def replaced (s : Segment) : List Segment := if s.isFault then s.replacement.map blank else [s]

variable {s : Segment} {rest : List Char}

theorem replacement_of_not_fault (h : s.isFault = false) : s.replacement = s.text := by
  cases s <;> first | rfl | cases h

theorem blank_of_mem_replacement (h : s.isFault = true) :
    ∀ c ∈ s.replacement, c ∈ [' ', '\t', '\r', '\n'] := by
  intro c hc
  cases s with
  | stray d => simp_all [replacement, complaint?]
  | unterminated body =>
    obtain ⟨-, hnewline⟩ := List.mem_filter.1 (show c ∈ List.filter _ _ from hc)
    simp [eq_of_beq hnewline]
  | _ => cases h

/-- What is written goes down as many lines. -/
theorem Stands.count_replacement (h : s.Stands rest) : s.replacement.count '\n' = s.newlines := by
  cases hs : s.isFault with
  | false => rw [replacement_of_not_fault hs, newlines]
  | true =>
    cases s with
    | stray c => simp [replacement, complaint?, newlines, text, h.stray_ne_newline]
    | unterminated body => exact List.count_filter rfl
    | _ => cases hs

theorem count_flatMap_replacement {segments : List Segment}
    (h : ∀ s ∈ segments, ∃ rest, s.Stands rest) :
    (segments.flatMap replacement).count '\n' = (segments.flatMap text).count '\n' := by
  induction segments with
  | nil => rfl
  | cons s segments ih =>
    obtain ⟨rest, hs⟩ := h s List.mem_cons_self
    rw [List.flatMap_cons, List.flatMap_cons, List.count_append, List.count_append,
      hs.count_replacement, ih fun t ht => h t (List.mem_cons_of_mem _ ht), newlines]

/-! ### The segments of a mended text -/

variable {segments : List Segment}

/-- Up to the first change, which shows a blank or nothing, a mended text is as it was. -/
theorem Munched.exists_common {chars : List Char} (h : Munched chars segments) :
    ∃ common behind changed, chars = common ++ behind ∧
      segments.flatMap replacement = common ++ changed ∧
      ∀ c ∈ changed.head?, c ∈ [' ', '\t', '\r', '\n'] := by
  induction h with
  | nil => exact ⟨[], [], [], rfl, rfl, nofun⟩
  | @cons s rest segments hs h ih =>
    cases hfault : s.isFault with
    | false =>
      obtain ⟨common, behind, changed, rfl, hchanged, hblank⟩ := ih
      refine ⟨s.text ++ common, behind, changed, by rw [List.append_assoc], ?_, hblank⟩
      rw [List.flatMap_cons, hchanged, replacement_of_not_fault hfault, List.append_assoc]
    | true =>
      refine ⟨[], s.text ++ rest, (s :: segments).flatMap replacement, rfl, rfl, fun c hc => ?_⟩
      cases s with
      | stray d =>
        obtain rfl : ' ' = c := Option.some.inj hc
        decide
      | unterminated body =>
        -- nothing follows a text that is left open
        obtain rfl := hs.1.rest_eq_nil
        obtain rfl : segments = [] := by rw [munched_iff.1 h, split]
        rw [List.flatMap_cons, List.flatMap_nil, List.append_nil] at hc
        exact blank_of_mem_replacement hfault c (List.mem_of_head? hc)
      | _ => cases hfault

/-- A segment stands before a mended text as it stood before the text itself. -/
theorem Munched.stands_replacement (h : Munched rest segments) (hs : s.Stands rest)
    (hfault : s.isFault = false) : s.Stands (segments.flatMap replacement) := by
  cases htoken : s.isToken with
  | true => exact stands_of_isToken htoken hs _
  | false =>
    rcases hs with hs | ⟨c, rfl, -⟩
    · cases hs with
      | blank hc => exact .inl (.blank hc)
      | comment hbody hrest =>
        refine .inl (.comment hbody ?_)
        rw [munched_iff.1 h]
        rcases hrest with rfl | ⟨more, rfl⟩
        · exact .inl (by rw [split]; rfl)
        · -- the newline behind a comment is kept
          have hnewline : split ('\n' :: more) = blank '\n' :: split more :=
            split_append (.inl (.blank (by decide))) trivial
          exact .inr ⟨_, by rw [hnewline]; rfl⟩
      | unterminated => cases hfault
      | _ => cases htoken
    · cases hfault

/-- **The segments of a mended text** are those of the text, with blanks for the faults. -/
theorem Munched.split_replacement {chars : List Char} (h : Munched chars segments) :
    split (segments.flatMap replacement) = segments.flatMap replaced := by
  induction h with
  | nil => rw [List.flatMap_nil, split, List.flatMap_nil]
  | @cons s rest segments hs h ih =>
    rw [List.flatMap_cons, List.flatMap_cons, replaced, ← ih]
    cases hfault : s.isFault with
    | true => exact split_blanks (blank_of_mem_replacement hfault) _
    | false =>
      obtain ⟨hstands, hends⟩ := longest_iff.1 hs
      obtain ⟨common, behind, changed, rfl, hchanged, hblank⟩ := h.exists_common
      rw [replacement_of_not_fault hfault,
        split_append (h.stands_replacement hstands hfault)
          (hchanged ▸ hends.of_blank_behind hblank)]
      rfl

/-! ### Tokens and errors -/

theorem collect_blanks (blanks : List Char) :
    ∀ line, collect token? line (blanks.map blank) = [] := by
  induction blanks with
  | nil => exact fun _ => rfl
  | cons c blanks ih => exact fun line => ih _

theorem collect_replaced (h : ∀ s ∈ segments, ∃ rest, s.Stands rest) : ∀ line,
    collect token? line (segments.flatMap replaced) = collect token? line segments := by
  induction segments with
  | nil => exact fun _ => rfl
  | cons s segments ih =>
    intro line
    obtain ⟨rest, hs⟩ := h s List.mem_cons_self
    have ih := ih fun t ht => h t (List.mem_cons_of_mem _ ht)
    rw [List.flatMap_cons, replaced]
    cases hfault : s.isFault with
    | false =>
      show collect token? line (s :: segments.flatMap replaced) = _
      rw [collect, collect, ih]
    | true =>
      have hnone : s.token? (line + s.newlines) = none := by
        cases s <;> first | rfl | cases hfault
      have htexts : (s.replacement.map blank).flatMap text = s.replacement := by
        rw [List.flatMap_map]
        exact List.flatMap_singleton' _
      rw [if_pos rfl, collect_append, collect_blanks, htexts, hs.count_replacement, ih, collect,
        hnone]
      rfl

theorem isFault_of_mem_replaced : ∀ t ∈ segments.flatMap replaced, t.isFault = false := by
  intro t ht
  obtain ⟨s, -, ht⟩ := List.mem_flatMap.1 ht
  rw [replaced] at ht
  split at ht
  · obtain ⟨c, -, rfl⟩ := List.mem_map.1 ht
    rfl
  · rename_i hs
    rw [List.mem_singleton.1 ht]
    simpa using hs

end Segment

open Segment

/-- A source with a space for every unexpected character, and with just the newlines of a text that
is left open. -/
def mended (source : String) : String :=
  String.ofList ((split source.toList).flatMap replacement)

/-- **What cannot be scanned acts as a blank.**  If a space is written for every unexpected
character of a source, and of a text that is left open at its end only the newlines are kept, then
scanning reports no errors, and it finds the same tokens: with the same kinds, what they carry,
lexemes and lines, and the same end. -/
theorem scan_mended (source : String) :
    scan (mended source) = { tokens := (scan source).tokens, errors := [] } := by
  have hcut : Munched source.toList (split source.toList) := munched_iff.2 rfl
  have hstands : ∀ s ∈ split source.toList, ∃ rest, s.Stands rest := stands_of_mem_split
  have hsplit : split (mended source).toList = (split source.toList).flatMap replaced := by
    rw [mended, String.toList_ofList, hcut.split_replacement]
  have hlast : (mended source).toList.count '\n' = source.toList.count '\n' := by
    rw [mended, String.toList_ofList, count_flatMap_replacement hstands, hcut.flatMap_text]
  rw [scan_eq, scan_eq, hsplit, hlast, collect_replaced hstands,
    collect_error?_eq_nil _ isFault_of_mem_replaced]

end Scriptlet
