import Scriptlet.Token.Segment
import Mathlib.Data.List.Basic
import Mathlib.Data.List.TakeWhile

/-!
# Segments and where they end

What segments there are, said without a scanner: at its place in a text a segment is of one of the
forms of `Segment.Proper`, or it is a stray character, with which no segment of those forms can
start.  Whether a segment ends where it does can be told from the two characters behind it.  Both
together determine what the scanner cuts off.

* `Segment.Stands` : a segment may stand before a text;
* `Segment.Ends` : what follows a segment does not prolong it;
* `Segment.first_eq_iff` : **the scanner takes the one segment that stands and ends**;
* `Segment.split_append` : so it can be cut off any text.
-/

namespace Scriptlet

/-! ### Symbols by their text -/

namespace Symbol

theorem text_injective {s t : Symbol} (h : s.text.toList = t.text.toList) : s = t := by
  have hall : ∀ s ∈ all, ∀ t ∈ all, s.text.toList = t.text.toList → s = t := by decide
  exact hall s (by cases s <;> decide) t (by cases t <;> decide) h

theorem find?_text_eq_some_iff {cs : List Char} {s : Symbol} :
    (all.find? fun s => s.text.toList == cs) = some s ↔ s.text.toList = cs := by
  constructor
  · intro h
    simpa using List.find?_some h
  · rintro rfl
    cases hfind : all.find? fun t => t.text.toList == s.text.toList with
    | none =>
      have hnone := List.find?_eq_none.1 hfind s (by cases s <;> decide)
      simp at hnone
    | some t =>
      have htext : t.text.toList = s.text.toList := by simpa using List.find?_some hfind
      rw [text_injective htext]

theorem ofChar?_eq_some_iff {c : Char} {s : Symbol} :
    ofChar? c = some s ↔ s.text.toList = [c] := find?_text_eq_some_iff

theorem withEqual?_eq_some_iff {c : Char} {s : Symbol} :
    withEqual? c = some s ↔ s.text.toList = [c, '='] := find?_text_eq_some_iff

/-- A symbol of two characters is one of a single character with an equals sign behind it. -/
theorem text_cases (s : Symbol) :
    (∃ c, s.text.toList = [c]) ∨
      ∃ c, s.text.toList = [c, '='] ∧ ∃ t : Symbol, t.text.toList = [c] := by
  cases s with
  | bangEqual => exact .inr ⟨'!', rfl, .bang, rfl⟩
  | equalEqual => exact .inr ⟨'=', rfl, .equal, rfl⟩
  | greaterEqual => exact .inr ⟨'>', rfl, .greater, rfl⟩
  | lessEqual => exact .inr ⟨'<', rfl, .less, rfl⟩
  | _ => exact .inl ⟨_, rfl⟩

end Symbol

namespace Segment

/-! ### What can stand at a place -/

/-- A segment, a stray character apart, may stand before a text. -/
inductive Proper : Segment → List Char → Prop
  | blank {c : Char} {rest : List Char} (h : c ∈ [' ', '\t', '\r', '\n']) : Proper (blank c) rest
  | comment {body rest : List Char} (hbody : '\n' ∉ body)
    (hrest : rest = [] ∨ ∃ more, rest = '\n' :: more) : Proper (comment body) rest
  | string {body rest : List Char} (h : '"' ∉ body) : Proper (string body) rest
  | number {whole fraction rest : List Char} (hne : whole ≠ []) (hwhole : ∀ c ∈ whole, c.isDigit)
    (hfraction : ∀ c ∈ fraction, c.isDigit) : Proper (number whole fraction) rest
  | word {c : Char} {name rest : List Char} (hstart : isLetter c ∨ c = '_')
    (hname : ∀ d ∈ name, isLetter d ∨ isNumeral d ∨ d = '_') : Proper (word (c :: name)) rest
  | operator {s : Symbol} {rest : List Char} : Proper (operator s) rest
  | unterminated {body : List Char} (h : '"' ∉ body) : Proper (unterminated body) []

/-- A segment may stand before a text.  A stray character may do so if nothing else can start with
it. -/
def Stands (s : Segment) (rest : List Char) : Prop :=
  s.Proper rest ∨
    ∃ c, s = stray c ∧ ∀ other behind, Proper other behind → other.text.head? ≠ some c

/-! ### Where a segment ends -/

/-- A text does not start with a character of a class. -/
def Breaks (p : Char → Bool) (rest : List Char) : Prop := ∀ c ∈ rest.head?, p c = false

/-- The text behind a segment does not prolong it. -/
def Ends : Segment → List Char → Prop
  | number _ [], rest => Breaks Char.isDigit rest ∧
    ∀ more, rest = '.' :: more → Breaks Char.isDigit more
  | number _ (_ :: _), rest => Breaks Char.isDigit rest
  | word _, rest => Breaks isWordPart rest
  | operator s, rest => ∀ c ∈ rest.head?,
    s.text.toList ++ [c] ≠ ['/', '/'] ∧ ∀ t : Symbol, t.text.toList ≠ s.text.toList ++ [c]
  | _, _ => True

/-- A segment and the text behind it make up a text; the segment can stand there, and it ends
there. -/
structure Cut (text : List Char) (s : Segment) (rest : List Char) : Prop where
  stands : s.Stands rest
  ends : s.Ends rest
  text_append : s.text ++ rest = text

theorem Proper.text_ne_nil {s : Segment} {rest : List Char} (h : s.Proper rest) : s.text ≠ [] := by
  cases h with
  | @number whole fraction _ hne => cases fraction <;> simp [text, hne]
  | @operator s => cases s <;> decide
  | _ => simp [text]

section Runs

variable {p : Char → Bool} {run rest : List Char}

theorem breaks_dropWhile (p : Char → Bool) (cs : List Char) : Breaks p (cs.dropWhile p) := by
  intro c hc
  have hnot := List.head?_dropWhile_not p cs
  rw [Option.mem_def.1 hc] at hnot
  exact hnot

theorem takeWhile_eq_nil (h : Breaks p rest) : rest.takeWhile p = [] := by
  cases rest with
  | nil => rfl
  | cons c rest => simp [h c rfl]

theorem takeWhile_of_breaks (hrun : ∀ c ∈ run, p c) (h : Breaks p rest) :
    (run ++ rest).takeWhile p = run := by
  rw [List.takeWhile_append_of_pos hrun, takeWhile_eq_nil h, List.append_nil]

theorem dropWhile_of_breaks (hrun : ∀ c ∈ run, p c) (h : Breaks p rest) :
    (run ++ rest).dropWhile p = rest := by
  rw [List.dropWhile_append_of_pos hrun]
  cases rest with
  | nil => rfl
  | cons c rest => simp [h c rfl]

end Runs

/-! ### The scanner's choice, by the first character -/

theorem isBlank_iff {c : Char} : isBlank c = true ↔ c ∈ [' ', '\t', '\r', '\n'] := by
  simp [isBlank, or_assoc]

theorem isWordStart_iff {c : Char} : isWordStart c = true ↔ isLetter c ∨ c = '_' := by
  simp [isWordStart]

theorem isWordPart_iff {c : Char} : isWordPart c = true ↔ isLetter c ∨ isNumeral c ∨ c = '_' := by
  simp [isWordPart, or_assoc]

theorem isWordStart_of_isDigit {c : Char} (h : c.isDigit = true) : isWordStart c = false := by
  have hle : c.toNat ≤ 57 := by
    simp only [Char.isDigit, Bool.and_eq_true, decide_eq_true_eq] at h
    exact UInt32.le_iff_toNat_le.1 h.2
  have hletter : isLetter c = false := by
    unfold isLetter letterRanges Ranges.holds
    rw [if_pos (by omega)]
  have hne : c ≠ '_' := by rintro rfl; revert hle; decide
  simp [isWordStart, hletter, hne]

variable {c : Char} (cs : List Char)

theorem first_of_blank (h : isBlank c = true) : first c cs = (blank c, cs) := by
  simp [first, h]

theorem first_quote : first '"' cs = quoted cs := by
  simp [first, isBlank]

/-- A character of a class is none of those that are not in it. -/
theorem not_mem_of_class {p : Char → Bool} {others : List Char} (h : p c = true)
    (hp : others.all (fun d => !p d) = true) : c ∉ others := by
  intro hc
  have hnot := List.all_eq_true.1 hp c hc
  rw [h] at hnot
  cases hnot

/-- A class without blanks and quotes has no member that is one. -/
theorem not_blank_of_class {p : Char → Bool} (h : p c = true)
    (hp : [' ', '\t', '\r', '\n', '"'].all (fun d => !p d) = true) :
    isBlank c = false ∧ c ≠ '"' := by
  have hne := not_mem_of_class h hp
  simp only [List.mem_cons, List.not_mem_nil, or_false, not_or] at hne
  refine ⟨?_, hne.2.2.2.2⟩
  simp [isBlank, hne]

theorem first_of_digit (h : c.isDigit = true) :
    first c cs = numeric (c :: cs.takeWhile Char.isDigit) (cs.dropWhile Char.isDigit) := by
  obtain ⟨hblank, hquote⟩ := not_blank_of_class h (by decide)
  simp [first, hblank, hquote, h]

theorem first_of_wordStart (h : isWordStart c = true) :
    first c cs = (word (c :: cs.takeWhile isWordPart), cs.dropWhile isWordPart) := by
  obtain ⟨hblank, hquote⟩ := not_blank_of_class h (by decide)
  have hdigit : c.isDigit = false := by
    by_contra hd
    rw [isWordStart_of_isDigit (by simpa using hd)] at h
    cases h
  simp [first, hblank, hquote, hdigit, h]

/-- A character that starts neither a blank nor a literal nor a word. -/
structure Unclassed (c : Char) : Prop where
  blank : isBlank c = false
  quote : c ≠ '"'
  digit : c.isDigit = false
  word : isWordStart c = false

theorem first_of_unclassed (h : Unclassed c) : first c cs = mark c cs := by
  simp [first, h.blank, h.quote, h.digit, h.word]

theorem unclassed_symbol {s : Symbol} {more : List Char} (h : s.text.toList = c :: more) :
    Unclassed c := by
  have hall : Symbol.all.all (fun s => s.text.toList.head?.all fun c =>
      !isBlank c && c != '"' && !c.isDigit && !isWordStart c) = true := by decide
  have hs := List.all_eq_true.1 hall s (by cases s <;> decide)
  simp only [h, List.head?_cons, Option.all_some, Bool.and_eq_true, Bool.not_eq_true', bne_iff_ne]
    at hs
  exact ⟨hs.1.1.1, hs.1.1.2, hs.1.2, hs.2⟩

theorem unclassed_slash : Unclassed '/' :=
  unclassed_symbol (show Symbol.slash.text.toList = ['/'] from rfl)

/-! ### The scanner takes what stands and ends -/

theorem cut_quoted : Cut ('"' :: cs) (quoted cs).1 (quoted cs).2 := by
  have hbody : '"' ∉ cs.takeWhile (· != '"') := by
    intro h
    simpa using List.mem_takeWhile_imp h
  have hcs := List.takeWhile_append_dropWhile (p := (· != '"')) (l := cs)
  unfold quoted
  split
  · rename_i h
    rw [h, List.append_nil] at hcs
    rw [hcs] at hbody
    exact ⟨.inl (.unterminated hbody), trivial, by simp [text]⟩
  · rename_i d rest h
    have hquote : d = '"' := by simpa using breaks_dropWhile (· != '"') cs d (by rw [h]; rfl)
    rw [h, hquote] at hcs
    exact ⟨.inl (.string hbody), trivial, by simp [text, hcs]⟩

theorem cut_numeric {whole rest : List Char} (hne : whole ≠ []) (hwhole : ∀ c ∈ whole, c.isDigit)
    (hrest : Breaks Char.isDigit rest) :
    Cut (whole ++ rest) (numeric whole rest).1 (numeric whole rest).2 := by
  unfold numeric
  split
  · rename_i more
    have hmore := List.takeWhile_append_dropWhile (p := Char.isDigit) (l := more)
    split
    · -- the point stays behind, because no digit follows it
      rename_i h
      refine ⟨.inl (.number hne hwhole (by simp)), ⟨hrest, ?_⟩, rfl⟩
      rintro _ ⟨⟩
      rw [h, List.nil_append] at hmore
      rw [← hmore]
      exact breaks_dropWhile _ _
    · rename_i h
      have hfraction : ∀ c ∈ more.takeWhile Char.isDigit, c.isDigit :=
        fun c hc => List.mem_takeWhile_imp hc
      obtain ⟨d, fraction, hd⟩ := List.exists_cons_of_ne_nil h
      refine ⟨.inl (.number hne hwhole hfraction), ?_, ?_⟩
      · rw [hd]
        exact breaks_dropWhile _ _
      · conv_rhs => rw [← hmore]
        rw [hd]
        simp [text]
  · rename_i h
    exact ⟨.inl (.number hne hwhole (by simp)),
      ⟨hrest, fun more hmore => absurd hmore (h more)⟩, rfl⟩

/-- No segment other than a stray character starts with a character of no class. -/
theorem stands_stray {rest : List Char} (hc : Unclassed c) (hsymbol : Symbol.ofChar? c = none) :
    Stands (stray c) rest := by
  obtain ⟨hblank, hquote, hdigit, hword⟩ := hc
  have hnone : ∀ s : Symbol, s.text.toList ≠ [c] := by
    intro s hs
    rw [Symbol.ofChar?_eq_some_iff.2 hs] at hsymbol
    cases hsymbol
  refine .inr ⟨c, rfl, fun other behind h hhead => ?_⟩
  cases h with
  | @blank d _ h =>
    obtain rfl : d = c := by simpa [text] using hhead
    rw [isBlank_iff.2 h] at hblank
    cases hblank
  | comment =>
    obtain rfl : '/' = c := by simpa [text] using hhead
    exact hnone .slash rfl
  | string | unterminated =>
    obtain rfl : '"' = c := by simpa [text] using hhead
    exact hquote rfl
  | @number whole fraction _ hne hwhole =>
    obtain ⟨d, whole, rfl⟩ := List.exists_cons_of_ne_nil hne
    obtain rfl : d = c := by cases fraction <;> simpa [text] using hhead
    rw [hwhole d (by simp)] at hdigit
    cases hdigit
  | @word d _ _ hstart =>
    obtain rfl : d = c := by simpa [text] using hhead
    rw [isWordStart_iff.2 hstart] at hword
    cases hword
  | @operator s =>
    rcases s.text_cases with ⟨d, hs⟩ | ⟨d, hs, t, ht⟩
    · obtain rfl : d = c := by simpa [text, hs] using hhead
      exact hnone s hs
    · obtain rfl : d = c := by simpa [text, hs] using hhead
      exact hnone t ht

theorem cut_single (hc : Unclassed c)
    (hnext : ∀ d ∈ cs.head?, [c, d] ≠ ['/', '/'] ∧ ∀ t : Symbol, t.text.toList ≠ [c, d]) :
    Cut (c :: cs) (mark.single c cs).1 (mark.single c cs).2 := by
  unfold mark.single
  split
  · rename_i s hs
    rw [Symbol.ofChar?_eq_some_iff] at hs
    refine ⟨.inl .operator, fun d hd => ?_, by simp [text, hs]⟩
    rw [hs]
    exact hnext d hd
  · rename_i hsymbol
    exact ⟨stands_stray hc hsymbol, trivial, rfl⟩

theorem cut_mark (hc : Unclassed c) : Cut (c :: cs) (mark c cs).1 (mark c cs).2 := by
  -- a symbol of two characters has an equals sign second
  have hequal : ∀ {d : Char}, d ≠ '=' → ∀ t : Symbol, t.text.toList ≠ [c, d] := by
    intro d hd t ht
    rcases t.text_cases with ⟨a, ha⟩ | ⟨a, ha, -⟩
    · rw [ha] at ht; cases ht
    · rw [ha] at ht; cases ht; exact hd rfl
  unfold mark
  split
  · rename_i rest
    split
    · rename_i hslash
      obtain rfl : c = '/' := by simpa using hslash
      have hbody : '\n' ∉ rest.takeWhile (· != '\n') := by
        intro h
        simpa using List.mem_takeWhile_imp h
      have hbehind : ∀ d ∈ (rest.dropWhile (· != '\n')).head?, d = '\n' := by
        intro d hd
        simpa using breaks_dropWhile (· != '\n') rest d hd
      refine ⟨.inl (.comment hbody ?_), trivial, by simp [text]⟩
      cases h : rest.dropWhile (· != '\n') with
      | nil => exact .inl rfl
      | cons d more =>
        rw [h] at hbehind
        exact .inr ⟨more, by rw [hbehind d rfl]⟩
    · rename_i hslash
      refine cut_single _ hc ?_
      rintro d ⟨⟩
      refine ⟨?_, hequal (by decide)⟩
      rintro ⟨⟩
      simp at hslash
  · split
    · rename_i rest s hs
      rw [Symbol.withEqual?_eq_some_iff] at hs
      refine ⟨.inl .operator, fun d _ => ?_, by simp [text, hs]⟩
      -- no symbol has three characters
      rw [hs]
      refine ⟨by simp, fun t ht => ?_⟩
      rcases t.text_cases with ⟨a, ha⟩ | ⟨a, ha, -⟩ <;> (rw [ha] at ht; cases ht)
    · rename_i rest hs
      refine cut_single _ hc ?_
      rintro d ⟨⟩
      refine ⟨by simp, fun t ht => ?_⟩
      rw [Symbol.withEqual?_eq_some_iff.2 ht] at hs
      cases hs
  · rename_i hslash hequals
    refine cut_single _ hc fun d hd => ?_
    obtain ⟨more, rfl⟩ : ∃ more, cs = d :: more := List.head?_eq_some_iff.1 hd
    refine ⟨?_, hequal fun h => hequals more (by rw [h])⟩
    rintro ⟨⟩
    exact hslash more rfl

/-- **The scanner cuts off a segment that stands and ends.** -/
theorem cut_first (c : Char) (cs : List Char) : Cut (c :: cs) (first c cs).1 (first c cs).2 := by
  unfold first
  split
  · rename_i h
    exact ⟨.inl (.blank (isBlank_iff.1 h)), trivial, rfl⟩
  split
  · rename_i h
    obtain rfl : c = '"' := by simpa using h
    exact cut_quoted cs
  split
  · rename_i h
    have hwhole : ∀ d ∈ c :: cs.takeWhile Char.isDigit, d.isDigit = true := by
      intro d hd
      rcases List.mem_cons.1 hd with rfl | hd
      · exact h
      · exact List.mem_takeWhile_imp hd
    have hcut := cut_numeric (List.cons_ne_nil _ _) hwhole (breaks_dropWhile Char.isDigit cs)
    rwa [List.cons_append, List.takeWhile_append_dropWhile] at hcut
  split
  · rename_i h
    refine ⟨.inl (.word (isWordStart_iff.1 h) fun d hd => ?_), breaks_dropWhile _ _, by simp [text]⟩
    exact isWordPart_iff.1 (List.mem_takeWhile_imp hd)
  · rename_i hblank hquote hdigit hword
    exact cut_mark cs ⟨by simpa using hblank, by simpa using hquote, by simpa using hdigit,
      by simpa using hword⟩

theorem quoted_string {body rest : List Char} (h : '"' ∉ body) :
    quoted (body ++ '"' :: rest) = (string body, rest) := by
  have hbody : ∀ c ∈ body, (c != '"') = true := by
    intro c hc
    rw [bne_iff_ne]
    rintro rfl
    exact h hc
  have hrest : Breaks (· != '"') ('"' :: rest) := by rintro c ⟨⟩; rfl
  rw [quoted, dropWhile_of_breaks hbody hrest, takeWhile_of_breaks hbody hrest]

theorem quoted_unterminated {body : List Char} (h : '"' ∉ body) :
    quoted body = (unterminated body, []) := by
  have hbody : body.dropWhile (· != '"') = [] := by
    rw [List.dropWhile_eq_nil_iff]
    intro c hc
    rw [bne_iff_ne]
    rintro rfl
    exact h hc
  rw [quoted, hbody]

theorem numeric_of_ends {whole fraction rest : List Char} (hfraction : ∀ c ∈ fraction, c.isDigit)
    (h : (number whole fraction).Ends rest) :
    ∃ more, numeric whole more = (number whole fraction, rest) ∧
      (number whole fraction).text ++ rest = whole ++ more ∧ Breaks Char.isDigit more := by
  cases fraction with
  | nil =>
    refine ⟨rest, ?_, rfl, h.1⟩
    unfold numeric
    split
    · rename_i more
      rw [takeWhile_eq_nil (h.2 more rfl)]
    · rfl
  | cons d fraction =>
    refine ⟨'.' :: (d :: fraction ++ rest), ?_, by simp [text], by rintro c ⟨⟩; rfl⟩
    simp only [numeric]
    rw [takeWhile_of_breaks hfraction h, dropWhile_of_breaks hfraction h]

theorem mark_symbol {s : Symbol} {rest : List Char} (htext : s.text.toList = [c])
    (h : (operator s).Ends rest) : mark c rest = (operator s, rest) := by
  have hsingle : mark.single c rest = (operator s, rest) := by
    rw [mark.single, Symbol.ofChar?_eq_some_iff.2 htext]
  unfold mark
  split
  · rename_i more
    rw [if_neg, hsingle]
    intro hc
    obtain rfl : c = '/' := by simpa using hc
    exact (h '/' rfl).1 (by rw [htext]; rfl)
  · split
    · rename_i more t ht
      rw [Symbol.withEqual?_eq_some_iff] at ht
      exact absurd (by rw [ht, htext]; rfl) ((h '=' rfl).2 t)
    · exact hsingle
  · exact hsingle

/-- **The scanner takes whatever stands and ends.** -/
theorem first_of_cut {s : Segment} {rest : List Char} (h : Cut (c :: cs) s rest) :
    first c cs = (s, rest) := by
  obtain ⟨hstands, hends, htext⟩ := h
  rcases hstands with hproper | ⟨d, rfl, hstray⟩
  · cases hproper with
    | blank hblank =>
      cases htext
      exact first_of_blank _ (isBlank_iff.2 hblank)
    | @comment body _ hbody hrest =>
      cases htext
      have hall : ∀ d ∈ body, (d != '\n') = true := by
        intro d hd
        rw [bne_iff_ne]
        rintro rfl
        exact hbody hd
      have hbreaks : Breaks (· != '\n') rest := by
        rcases hrest with rfl | ⟨more, rfl⟩
        · rintro d ⟨⟩
        · rintro d ⟨⟩; rfl
      rw [List.append_eq, first_of_unclassed _ unclassed_slash,
        List.cons_append, mark, if_pos (beq_self_eq_true _), takeWhile_of_breaks hall hbreaks,
        dropWhile_of_breaks hall hbreaks]
    | string hbody =>
      cases htext
      rw [List.append_eq, List.append_assoc, List.singleton_append, first_quote,
        quoted_string hbody]
    | unterminated hbody =>
      rw [text, List.append_nil] at htext
      cases htext
      rw [first_quote, quoted_unterminated hbody]
    | @number whole fraction _ hne hwhole hfraction =>
      obtain ⟨more, hnumeric, htext', hbreaks⟩ := numeric_of_ends hfraction hends
      obtain ⟨d, whole, rfl⟩ := List.exists_cons_of_ne_nil hne
      rw [htext'] at htext
      cases htext
      have hdigits : ∀ e ∈ whole, e.isDigit = true := fun e he => hwhole e (by simp [he])
      rw [List.append_eq, first_of_digit _ (hwhole c (by simp)),
        takeWhile_of_breaks hdigits hbreaks, dropWhile_of_breaks hdigits hbreaks, hnumeric]
    | @word d name _ hstart hname =>
      cases htext
      have hparts : ∀ e ∈ name, isWordPart e = true := fun e he => isWordPart_iff.2 (hname e he)
      rw [List.append_eq, first_of_wordStart _ (isWordStart_iff.2 hstart),
        takeWhile_of_breaks hparts hends, dropWhile_of_breaks hparts hends]
    | @operator s =>
      rw [text] at htext
      rcases s.text_cases with ⟨d, hs⟩ | ⟨d, hs, -⟩
      · rw [hs] at htext
        cases htext
        rw [List.append_eq, List.nil_append, first_of_unclassed _ (unclassed_symbol hs),
          mark_symbol hs hends]
      · rw [hs] at htext
        cases htext
        rw [first_of_unclassed _ (unclassed_symbol hs)]
        simp only [List.append_eq, List.cons_append, List.nil_append, mark,
          Symbol.withEqual?_eq_some_iff.2 hs]
  · -- a stray character is what the scanner finds only where nothing else can start
    cases htext
    have hfirst := cut_first c rest
    rcases hfirst.stands with hproper | ⟨e, he, -⟩
    · have hhead := congrArg List.head? hfirst.text_append
      rw [List.head?_append_of_ne_nil _ hproper.text_ne_nil] at hhead
      exact absurd hhead (hstray _ _ hproper)
    · have htext := hfirst.text_append
      rw [he] at htext
      obtain ⟨rfl, hrest⟩ := List.cons.inj htext
      exact Prod.ext he hrest

/-- **The scanner takes the one segment that stands and ends.** -/
theorem first_eq_iff {s : Segment} {rest : List Char} :
    first c cs = (s, rest) ↔ Cut (c :: cs) s rest := by
  refine ⟨fun h => ?_, first_of_cut cs⟩
  have hcut := cut_first c cs
  rwa [h] at hcut

theorem Stands.text_ne_nil {s : Segment} {rest : List Char} (h : s.Stands rest) : s.text ≠ [] := by
  rcases h with h | ⟨c, rfl, -⟩
  · exact h.text_ne_nil
  · exact List.cons_ne_nil c []

/-- What stands and ends is cut off a text. -/
theorem split_append {s : Segment} {rest : List Char} (hstands : s.Stands rest)
    (hends : s.Ends rest) : split (s.text ++ rest) = s :: split rest := by
  obtain ⟨c, more, htext⟩ := List.exists_cons_of_ne_nil hstands.text_ne_nil
  have hcut : Cut (c :: (more ++ rest)) s rest := ⟨hstands, hends, by rw [htext]; rfl⟩
  rw [htext, List.cons_append, split, (first_eq_iff _).2 hcut]

end Segment

end Scriptlet
