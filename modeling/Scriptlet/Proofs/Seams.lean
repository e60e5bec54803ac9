import Scriptlet.Proofs.ParseLines
import Scriptlet.Proofs.Rescan

/-!
# Sources one below the other

A newline ends whatever stands before it, unless that is a text that is not closed.  So a source
with another one below it has the tokens and errors of both, and those of the second are as many
lines further down as the first one has newlines, and one more.

* `down` : a line, so many lines further down;
* `Segment.Ends.append_newline`, `Segment.Stands.append_newline` : what stands and ends in a text
  also does so with more text below;
* `Segment.split_newline` : **the segments of two texts, one below the other**;
* `scan_newline`, `sources_scan_apart` : **scanning distributes over a newline.**
-/

namespace Scriptlet

/-- A line, so many lines further down.  The line zero stands for none, and stays so. -/
def down (n line : Nat) : Nat := if line = 0 then 0 else line + n

theorem down_of_pos {n line : Nat} (h : 0 < line) : down n line = line + n := by
  rw [down, if_neg (Nat.pos_iff_ne_zero.1 h)]

namespace Segment

variable {s : Segment} {rest : List Char}

/-! ### Segments -/

/-- What a segment ends before can be changed behind its first characters, if a blank comes there,
or nothing. -/
theorem Ends.of_blank_behind {common changed : List Char} (h : s.Ends (common ++ rest))
    (hblank : ∀ c ∈ changed.head?, c ∈ [' ', '\t', '\r', '\n']) : s.Ends (common ++ changed) := by
  cases common with
  | nil =>
    cases hs : s.isToken with
    | true => exact ends_of_blank hs hblank
    | false => cases s <;> trivial
  | cons c common =>
    -- the next character is the same, and only a number looks further
    cases s with
    | number whole fraction =>
      cases fraction with
      | nil =>
        refine ⟨h.1, ?_⟩
        rintro _ ⟨⟩
        have hcommon := h.2 (common ++ rest) rfl
        cases common with
        | nil => exact breaks_of_blank (by decide) hblank
        | cons d common => exact hcommon
      | cons d fraction => exact h
    | _ => exact h

/-- More text below does not prolong a segment. -/
theorem Ends.append_newline (h : s.Ends rest) (below : List Char) :
    s.Ends (rest ++ '\n' :: below) := by
  rw [← List.append_nil rest] at h
  exact h.of_blank_behind (by simp)

/-- More text below does not hinder a segment, if its quotes are closed. -/
theorem Stands.append_newline (h : s.Stands rest) (hclosed : ∀ body, s ≠ unterminated body)
    (below : List Char) : s.Stands (rest ++ '\n' :: below) := by
  rcases h with h | h
  · refine .inl ?_
    cases h with
    | blank hc => exact .blank hc
    | comment hbody hrest =>
      refine .comment hbody (.inr ?_)
      rcases hrest with rfl | ⟨more, rfl⟩
      · exact ⟨below, rfl⟩
      · exact ⟨more ++ '\n' :: below, rfl⟩
    | string hbody => exact .string hbody
    | number hne hwhole hfraction => exact .number hne hwhole hfraction
    | word hstart hname => exact .word hstart hname
    | operator => exact .operator
    | unterminated => exact absurd rfl (hclosed _)
  · exact .inr h

/-- **The segments of two texts, one below the other.** -/
theorem split_newline {text : List Char} (hclosed : ∀ body, unterminated body ∉ split text)
    (below : List Char) :
    split (text ++ '\n' :: below) = split text ++ blank '\n' :: split below := by
  have hnewline : split ('\n' :: below) = blank '\n' :: split below :=
    split_append (s := blank '\n') (.inl (.blank (by decide))) trivial
  induction text using split.induct with
  | case1 => rw [split, List.nil_append, hnewline, List.nil_append]
  | case2 c cs ih =>
    rw [split] at hclosed
    have hcut := cut_first c cs
    have hstands := hcut.stands.append_newline
      (fun body hs => hclosed body (hs ▸ List.mem_cons_self)) below
    have hsplit := split_append hstands (hcut.ends.append_newline below)
    rw [← List.append_assoc, hcut.text_append,
      ih fun body h => hclosed body (List.mem_cons_of_mem _ h)] at hsplit
    rw [hsplit, split, List.cons_append]

/-! ### Tokens and errors -/

theorem collect_append {α : Type} (f : Nat → Segment → Option α) (before after : List Segment) :
    ∀ line, collect f line (before ++ after) =
      collect f line before ++ collect f (line + (before.flatMap text).count '\n') after := by
  induction before with
  | nil => exact fun _ => rfl
  | cons s before ih =>
    intro line
    rw [List.cons_append, collect, ih, collect, List.append_assoc, List.flatMap_cons,
      List.count_append, ← Nat.add_assoc]
    rfl

theorem collect_newline {α : Type} {f : Nat → Segment → Option α}
    (hblank : ∀ line, f line (blank '\n') = none) {text : List Char}
    (hclosed : ∀ body, unterminated body ∉ split text) (below : List Char) (line : Nat) :
    collect f line (split (text ++ '\n' :: below)) =
      collect f line (split text) ++
        collect f (line + (text.count '\n' + 1)) (split below) := by
  have hcut : (split text).flatMap Segment.text = text := (munched_iff.2 rfl).flatMap_text
  rw [split_newline hclosed, collect_append, hcut, collect, hblank, Nat.add_assoc]
  rfl

theorem exists_mem_collect {α : Type} (f : Nat → Segment → Option α) {s : Segment}
    {segments : List Segment} (h : s ∈ segments) :
    ∀ line, ∃ line', ∀ a ∈ f line' s, a ∈ collect f line segments := by
  induction segments with
  | nil => cases h
  | cons first rest ih =>
    intro line
    rcases List.mem_cons.1 h with rfl | h
    · exact ⟨_, fun a ha => List.mem_append_left _ (Option.mem_toList.2 ha)⟩
    · obtain ⟨line', hline'⟩ := ih h (line + first.newlines)
      exact ⟨line', fun a ha => List.mem_append_right _ (hline' a ha)⟩

/-- What is on other lines if it is made on other lines is so throughout a text. -/
theorem collect_down {α : Type} {f : Nat → Segment → Option α} {g : α → α} {n : Nat}
    (hf : ∀ line s, 0 < line → f (line + n) s = (f line s).map g) (segments : List Segment) :
    ∀ line, 0 < line → collect f (line + n) segments = (collect f line segments).map g := by
  induction segments with
  | nil => exact fun _ _ => rfl
  | cons s rest ih =>
    intro line hline
    have hnext : 0 < line + s.newlines := Nat.add_pos_left hline _
    have hline : line + n + s.newlines = line + s.newlines + n := Nat.add_right_comm ..
    rw [collect, collect, hline, hf _ _ hnext, ih _ hnext, List.map_append]
    cases f (line + s.newlines) s <;> rfl

theorem token?_down (n : Nat) {line : Nat} (s : Segment) (h : 0 < line) :
    s.token? (line + n) = (s.token? line).map (Token.mapLine (down n)) := by
  simp only [token?]
  cases s.kind? with
  | none => rfl
  | some kind => simp [Token.mapLine, down_of_pos h]

theorem error?_down (n : Nat) {line : Nat} (s : Segment) (h : 0 < line) :
    s.error? (line + n) = (s.error? line).map (SyntaxError.mapLine (down n)) := by
  simp only [error?]
  cases s.complaint? with
  | none => rfl
  | some complaint => simp [SyntaxError.mapLine, SyntaxError.atLine, down_of_pos h]

end Segment

open Segment

/-- The tokens of a source without its end. -/
theorem dropLast_tokens (source : String) :
    (scan source).tokens.dropLast = collect token? 1 (split source.toList) := by
  rw [scan_eq, List.dropLast_concat]

/-- The last token is the end of the source, and no other token is. -/
theorem exists_end_scan (source : String) : ∃ e : Token, e.kind = .endOfFile ∧
    (scan source).tokens = (scan source).tokens.dropLast ++ [e] ∧
    ∀ t ∈ (scan source).tokens.dropLast, t.kind ≠ .endOfFile := by
  refine ⟨⟨.endOfFile, "", 1 + source.toList.count '\n'⟩, rfl, ?_, fun t ht hend => ?_⟩
  · rw [dropLast_tokens, scan_eq]
  · rw [dropLast_tokens] at ht
    have hinner := isEnd_of_mem_collect _ 1 t ht
    rw [hend] at hinner
    cases hinner

/-- A text that is not closed is an error. -/
theorem closed_of_errors {source : String}
    (h : ∀ e ∈ (scan source).errors, e.complaint ≠ .unterminatedString) :
    ∀ body, unterminated body ∉ split source.toList := by
  intro body hmem
  obtain ⟨line, hline⟩ := exists_mem_collect error? hmem 1
  rw [scan_eq] at h
  exact h (.atLine line .unterminatedString) (hline _ rfl) rfl

theorem line_pos_of_mem_scan {source : String} {t : Token} (h : t ∈ (scan source).tokens) :
    0 < t.line := by
  rw [scan_eq, List.mem_append, List.mem_singleton] at h
  rcases h with h | rfl
  · exact (line_of_mem_collect line_of_token? _ 1 t h).1
  · exact Nat.add_pos_left Nat.one_pos _

theorem line_pos_of_mem_errors {source : String} {e : SyntaxError} (h : e ∈ (scan source).errors) :
    0 < e.line := by
  rw [scan_eq] at h
  exact (line_of_mem_collect line_of_error? _ 1 e h).1

/-- **Scanning distributes over a newline**, if no text is left open before it. -/
theorem scan_newline {a : String} (hclosed : ∀ body, unterminated body ∉ split a.toList)
    (b : String) :
    scan (a ++ "\n" ++ b) =
      let n := a.toList.count '\n' + 1
      { tokens := (scan a).tokens.dropLast ++ (scan b).tokens.map (Token.mapLine (down n))
        errors := (scan a).errors ++ (scan b).errors.map (SyntaxError.mapLine (down n)) } := by
  have htext : (a ++ "\n" ++ b).toList = a.toList ++ '\n' :: b.toList := by simp
  have hcount : 1 + (a.toList ++ '\n' :: b.toList).count '\n' =
      1 + b.toList.count '\n' + (a.toList.count '\n' + 1) := by
    rw [List.count_append, List.count_cons_self]
    omega
  have hlast : 0 < 1 + b.toList.count '\n' := by omega
  rw [dropLast_tokens]
  simp only [scan_eq, htext, hcount]
  rw [collect_newline (fun _ => rfl) hclosed, collect_newline (fun _ => rfl) hclosed,
    collect_down (fun _ s h => token?_down _ s h) _ 1 Nat.one_pos,
    collect_down (fun _ s h => error?_down _ s h) _ 1 Nat.one_pos, List.map_append,
    List.append_assoc]
  simp [Token.mapLine, down_of_pos hlast]

/-- **Scanning distributes over a newline.**  Let no text be left open in a source.  With another
source below it, it has the tokens of both, the end of the first one apart, and the errors of both.
What is from the second one is further down by the lines of the first. -/
theorem sources_scan_apart {a : String}
    (h : ∀ e ∈ (scan a).errors, e.complaint ≠ .unterminatedString) (b : String) :
    let n := 1 + a.toList.count '\n'
    (scan (a ++ "\n" ++ b)).tokens =
        ((scan a).tokens.filter fun t => !t.kind.isEnd) ++
          (scan b).tokens.map (fun t => { t with line := t.line + n }) ∧
      (scan (a ++ "\n" ++ b)).errors =
        (scan a).errors ++ (scan b).errors.map fun e => { e with line := e.line + n } := by
  have hinner : ((scan a).tokens.filter fun t => !t.kind.isEnd) = (scan a).tokens.dropLast := by
    rw [dropLast_tokens, scan_eq, List.filter_append, List.filter_eq_self.2]
    · simp [Kind.isEnd]
    · intro t ht
      rw [isEnd_of_mem_collect _ 1 t ht]; rfl
  rw [scan_newline (closed_of_errors h) b, hinner, Nat.add_comm 1]
  refine ⟨congrArg _ (List.map_congr_left fun t ht => ?_),
    congrArg _ (List.map_congr_left fun e he => ?_)⟩
  · rw [Token.mapLine, down_of_pos (line_pos_of_mem_scan ht)]
  · rw [SyntaxError.mapLine, down_of_pos (line_pos_of_mem_errors he)]

/-- A stray character and a number with a point behind it, and below them a digit and a text that is
left open: the point stays apart from the digit, and the second error is on the second line. -/
theorem point_and_digit_scan_apart :
    (scan ("@1." ++ "\n" ++ "5\"")).tokens =
        [⟨.number (.ofBits 0x3FF0000000000000), "1", 1⟩, ⟨.symbol .dot, ".", 1⟩,
          ⟨.number (.ofBits 0x4014000000000000), "5", 2⟩, ⟨.endOfFile, "", 2⟩] ∧
      (scan ("@1." ++ "\n" ++ "5\"")).errors =
        [.atLine 1 .unexpectedCharacter, .atLine 2 .unterminatedString] := by
  obtain ⟨htokens, herrors⟩ := sources_scan_apart (a := "@1.") (by decide +kernel) "5\""
  rw [htokens, herrors]
  decide +kernel

end Scriptlet
