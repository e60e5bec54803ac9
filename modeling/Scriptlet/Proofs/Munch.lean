import Scriptlet.Token.Scan
import Scriptlet.Proofs.Segments
import Mathlib.Data.List.Forall2

/-!
# A source is cut into the longest segments

A text is cut from left to right, each segment being the longest that can stand at its place.  A
segment that does not end where it stops can be prolonged, so the longest one is the one that ends,
and that is the one the scanner takes.  Hence there is exactly one such cut, and the tokens of a
source are the literals, words and operators in it.

* `Segment.Longest`, `Segment.Munched` : the longest segment at a place, and the cut of a text;
* `Segment.longest_iff` : the longest segment is the one that ends;
* `Segment.munched_iff` : the cut is what the scanner makes;
* `scan_maximal_munch` : **every source has one cut into longest segments, and its tokens are
  those of the cut.**
-/

namespace Scriptlet

namespace Segment

/-! ### The longest segment -/

/-- A segment before a text is the longest one that can stand at its place. -/
def Longest (s : Segment) (rest : List Char) : Prop :=
  s.Stands rest ∧ ∀ other behind, Stands other behind → other.text ++ behind = s.text ++ rest →
    other.text.length ≤ s.text.length

/-- A text is cut into segments, each the longest one at its place. -/
inductive Munched : List Char → List Segment → Prop
  | nil : Munched [] []
  | cons {s : Segment} {rest : List Char} {segments : List Segment} (hs : s.Longest rest)
    (h : Munched rest segments) : Munched (s.text ++ rest) (s :: segments)

theorem exists_of_not_breaks {p : Char → Bool} {rest : List Char} (h : ¬ Breaks p rest) :
    ∃ d more, rest = d :: more ∧ p d = true := by
  cases rest with
  | nil => exact absurd (by rintro c ⟨⟩) h
  | cons d more =>
    refine ⟨d, more, rfl, ?_⟩
    by_contra hd
    exact h (by rintro c ⟨⟩; simpa using hd)

/-- A segment that does not end can be prolonged. -/
theorem exists_longer {s : Segment} {rest : List Char} (h : s.Stands rest) (hends : ¬ s.Ends rest) :
    ∃ longer behind, Stands longer behind ∧ longer.text ++ behind = s.text ++ rest ∧
      s.text.length < longer.text.length := by
  rcases h with hproper | ⟨c, rfl, -⟩
  swap
  · exact absurd trivial hends
  cases hproper with
  | @number whole fraction _ hne hwhole hfraction =>
    -- by one more digit, or by a point and a digit
    have hdigits : ∀ {run : List Char} {d : Char}, (∀ c ∈ run, c.isDigit) → d.isDigit = true →
        ∀ c ∈ run ++ [d], c.isDigit := by
      intro run d hrun hd c hc
      rcases List.mem_append.1 hc with hc | hc
      · exact hrun c hc
      · rw [List.mem_singleton.1 hc]; exact hd
    cases fraction with
    | nil =>
      by_cases hbreaks : Breaks Char.isDigit rest
      · obtain ⟨more, rfl, hmore⟩ : ∃ more, rest = '.' :: more ∧ ¬ Breaks Char.isDigit more := by
          by_contra hnone
          exact hends ⟨hbreaks, fun more hmore => by_contra fun h => hnone ⟨more, hmore, h⟩⟩
        obtain ⟨d, more, rfl, hd⟩ := exists_of_not_breaks hmore
        exact ⟨number whole [d], more, .inl (.number hne hwhole (by simpa using hd)),
          by simp [text], by simp [text]⟩
      · obtain ⟨d, more, rfl, hd⟩ := exists_of_not_breaks hbreaks
        exact ⟨number (whole ++ [d]) [], more,
          .inl (.number (by simp) (hdigits hwhole hd) (by simp)), by simp [text], by simp [text]⟩
    | cons e fraction =>
      obtain ⟨d, more, rfl, hd⟩ := exists_of_not_breaks hends
      exact ⟨number whole (e :: fraction ++ [d]), more,
        .inl (.number hne hwhole (hdigits hfraction hd)), by simp [text], by simp [text]⟩
  | @word c name _ hstart hname =>
    obtain ⟨d, more, rfl, hd⟩ := exists_of_not_breaks hends
    refine ⟨word (c :: (name ++ [d])), more, .inl (.word hstart fun e he => ?_), by simp [text],
      by simp [text]⟩
    rcases List.mem_append.1 he with he | he
    · exact hname e he
    · rw [List.mem_singleton.1 he]; exact isWordPart_iff.1 hd
  | @operator s =>
    obtain ⟨d, hd, hlonger⟩ : ∃ d ∈ rest.head?, s.text.toList ++ [d] = ['/', '/'] ∨
        ∃ t : Symbol, t.text.toList = s.text.toList ++ [d] := by
      by_contra hnone
      refine hends fun d hd => ⟨fun h => hnone ⟨d, hd, .inl h⟩, fun t ht => ?_⟩
      exact hnone ⟨d, hd, .inr ⟨t, ht⟩⟩
    obtain ⟨more, rfl⟩ : ∃ more, rest = d :: more := List.head?_eq_some_iff.1 hd
    rcases hlonger with hslashes | ⟨t, ht⟩
    · -- two slashes start a comment
      have hcut := cut_first '/' ('/' :: more)
      have hs : s.text.toList = ['/'] ∧ d = '/' := by
        rcases s.text_cases with ⟨c, hc⟩ | ⟨c, hc, -⟩ <;> (rw [hc] at hslashes ⊢; simp_all)
      rw [first_of_unclassed _ unclassed_slash, mark,
        if_pos (beq_self_eq_true _)] at hcut
      exact ⟨_, _, hcut.stands, by rw [hcut.text_append, text, hs.1, hs.2]; rfl,
        by simp [text, hs.1]⟩
    · exact ⟨operator t, more, .inl .operator, by simp [text, ht], by simp [text, ht]⟩
  | _ => exact absurd trivial hends

/-- Nothing that can stand at a place is longer than what the scanner takes. -/
theorem length_le_first {c : Char} (cs : List Char) : ∀ {rest : List Char} {s : Segment},
    s.Stands rest → s.text ++ rest = c :: cs →
      s.text.length ≤ (first c cs).1.text.length := by
  intro rest
  -- what does not end can be prolonged, and less is left behind it
  induction hn : rest.length using Nat.strongRecOn generalizing rest with
  | ind n ih =>
    intro s hs htext
    by_cases hends : s.Ends rest
    · rw [(first_eq_iff cs).2 ⟨hs, hends, htext⟩]
    · obtain ⟨longer, behind, hlonger, hsame, hlength⟩ := exists_longer hs hends
      have hlen := congrArg List.length hsame
      simp only [List.length_append] at hlen
      exact hlength.le.trans (ih behind.length (by omega) rfl hlonger (hsame.trans htext))

/-- **The longest segment at a place is the one that ends there.** -/
theorem longest_iff {s : Segment} {rest : List Char} :
    s.Longest rest ↔ s.Stands rest ∧ s.Ends rest := by
  constructor
  · rintro ⟨hs, hlongest⟩
    refine ⟨hs, by_contra fun hends => ?_⟩
    obtain ⟨longer, behind, hlonger, hsame, hlength⟩ := exists_longer hs hends
    exact absurd (hlongest longer behind hlonger hsame) (Nat.not_le_of_lt hlength)
  · rintro ⟨hs, hends⟩
    obtain ⟨c, more, htext⟩ := List.exists_cons_of_ne_nil hs.text_ne_nil
    refine ⟨hs, fun other behind hother hsame => ?_⟩
    rw [htext, List.cons_append] at hsame
    have hle := length_le_first _ hother hsame
    rwa [(first_eq_iff _).2 ⟨hs, hends, by rw [htext]; rfl⟩] at hle

/-- **Cutting off one segment after the other gives the one cut into longest segments.** -/
theorem munched_iff {chars : List Char} {segments : List Segment} :
    Munched chars segments ↔ segments = split chars := by
  constructor
  · intro h
    induction h with
    | nil => rw [split]
    | @cons s rest segments hs _ ih =>
      obtain ⟨hstands, hends⟩ := longest_iff.1 hs
      rw [split_append hstands hends, ih]
  · rintro rfl
    induction chars using split.induct with
    | case1 => rw [split]; exact .nil
    | case2 c cs ih =>
      have hcut : Cut (c :: cs) (first c cs).1 (first c cs).2 := (first_eq_iff cs).1 rfl
      have h := Munched.cons (longest_iff.2 ⟨hcut.stands, hcut.ends⟩) ih
      rwa [hcut.text_append, ← split] at h

theorem Munched.flatMap_text {chars : List Char} {segments : List Segment}
    (h : Munched chars segments) : segments.flatMap text = chars := by
  induction h with
  | nil => rfl
  | cons _ _ ih => rw [List.flatMap_cons, ih]

/-! ### Tokens and errors -/

/-- Whether a segment is a token. -/
def isToken : Segment → Bool
  | string _ | number _ _ | word _ | operator _ => true
  | blank _ | comment _ | stray _ | unterminated _ => false

/-- Whether a segment is an error. -/
def isFault : Segment → Bool
  | stray _ | unterminated _ => true
  | blank _ | comment _ | string _ | number _ _ | word _ | operator _ => false

/-- What kind of token a segment is.  A word is a keyword if it is written like one. -/
inductive Means : Segment → Kind → Prop
  | string {body : List Char} : Means (string body) (.string (String.ofList body))
  | number {whole fraction : List Char} :
    Means (number whole fraction) (.number (Number.ofDecimal (.ofDigits whole fraction)))
  | keyword {name : List Char} (k : Keyword) (h : k.text = String.ofList name) :
    Means (word name) (.keyword k)
  | identifier {name : List Char} (h : ∀ k : Keyword, k.text ≠ String.ofList name) :
    Means (word name) (.identifier (String.ofList name))
  | operator {s : Symbol} : Means (operator s) (.symbol s)

/-- A token is that of a segment: it has its text and its kind. -/
def IsTokenOf (s : Segment) (t : Token) : Prop := t.lexeme = String.ofList s.text ∧ s.Means t.kind

/-- An error is that of a segment. -/
inductive IsErrorOf : Segment → SyntaxError → Prop
  | stray {c : Char} {line : Nat} : IsErrorOf (stray c) ⟨line, .line, .unexpectedCharacter⟩
  | unterminated {body : List Char} {line : Nat} :
    IsErrorOf (unterminated body) ⟨line, .line, .unterminatedString⟩

theorem kind?_means {s : Segment} {kind : Kind} (h : s.kind? = some kind) : s.Means kind := by
  cases s with
  | string body => cases h; exact .string
  | number whole fraction => cases h; exact .number
  | operator s => cases h; exact .operator
  | word name =>
    simp only [kind?] at h
    split at h
    · rename_i k hk
      cases h
      exact .keyword k (by simpa using List.find?_some hk)
    · rename_i hk
      cases h
      refine .identifier fun k htext => ?_
      have hnone := List.find?_eq_none.1 hk k (by cases k <;> decide)
      exact hnone (by simpa using htext)
  | _ => cases h

theorem kind?_isSome_iff (s : Segment) : s.kind?.isSome = s.isToken := by
  cases s with
  | word name =>
    simp only [kind?, isToken]
    split <;> rfl
  | _ => rfl

theorem isErrorOf_error? (line : Nat) (s : Segment) :
    (s.isFault = true ∧ ∃ e, s.error? line = some e ∧ s.IsErrorOf e) ∨
      (s.isFault = false ∧ s.error? line = none) := by
  cases s with
  | stray c => exact .inl ⟨rfl, _, rfl, .stray⟩
  | unterminated body => exact .inl ⟨rfl, _, rfl, .unterminated⟩
  | _ => exact .inr ⟨rfl, rfl⟩

theorem isTokenOf_token? (line : Nat) (s : Segment) :
    (s.isToken = true ∧ ∃ t, s.token? line = some t ∧ s.IsTokenOf t) ∨
      (s.isToken = false ∧ s.token? line = none) := by
  rw [← kind?_isSome_iff, token?]
  cases h : s.kind? with
  | none => exact .inr ⟨rfl, rfl⟩
  | some kind => exact .inl ⟨rfl, _, rfl, rfl, kind?_means h⟩

/-- What the segments from a line on give, each by the line on which it ends. -/
def collect {α : Type} (f : Nat → Segment → Option α) (line : Nat) : List Segment → List α
  | [] => []
  | s :: rest => (f (line + s.newlines) s).toList ++ collect f (line + s.newlines) rest

theorem filterMap_withLines {α : Type} (f : Nat → Segment → Option α) (segments : List Segment) :
    ∀ line, ((withLines line segments).1.filterMap fun (line, s) => f line s) =
      collect f line segments := by
  induction segments with
  | nil => exact fun _ => rfl
  | cons s rest ih =>
    intro line
    rw [collect, ← ih (line + s.newlines)]
    simp only [withLines, List.filterMap_cons]
    cases f (line + s.newlines) s <;> rfl

theorem withLines_last (segments : List Segment) :
    ∀ line, (withLines line segments).2 = line + (segments.flatMap text).count '\n' := by
  induction segments with
  | nil => exact fun _ => rfl
  | cons s rest ih =>
    intro line
    rw [List.flatMap_cons, List.count_append, ← Nat.add_assoc]
    exact ih (line + s.newlines)

/-- What is collected from a line on is on a line from there to the last one. -/
theorem line_of_mem_collect {α : Type} {f : Nat → Segment → Option α} {lineOf : α → Nat}
    (hf : ∀ line s, ∀ a ∈ f line s, lineOf a = line) (segments : List Segment) :
    ∀ line, ∀ a ∈ collect f line segments,
      line ≤ lineOf a ∧ lineOf a ≤ line + (segments.flatMap text).count '\n' := by
  induction segments with
  | nil => exact fun _ => nofun
  | cons s rest ih =>
    intro line a ha
    have hcount : ((s :: rest).flatMap text).count '\n' =
        s.newlines + (rest.flatMap text).count '\n' := List.count_append
    rw [hcount]
    rcases List.mem_append.1 ha with ha | ha
    · have hline := hf _ s a (Option.mem_toList.1 ha)
      omega
    · have hlines := ih _ a ha
      omega

/-- What is collected is in the order of its lines. -/
theorem pairwise_collect {α : Type} {f : Nat → Segment → Option α} {lineOf : α → Nat}
    (hf : ∀ line s, ∀ a ∈ f line s, lineOf a = line) (segments : List Segment) :
    ∀ line, (collect f line segments).Pairwise fun a b => lineOf a ≤ lineOf b := by
  induction segments with
  | nil => exact fun _ => .nil
  | cons s rest ih =>
    intro line
    refine List.pairwise_append.2 ⟨?_, ih _, fun a ha b hb => ?_⟩
    · cases f (line + s.newlines) s <;> simp
    · rw [hf _ s a (Option.mem_toList.1 ha)]
      exact (line_of_mem_collect hf rest _ b hb).1

theorem line_of_token? (line : Nat) (s : Segment) : ∀ t ∈ s.token? line, t.line = line := by
  intro t ht
  obtain ⟨kind, -, rfl⟩ := Option.map_eq_some_iff.1 ht
  rfl

theorem line_of_error? (line : Nat) (s : Segment) : ∀ e ∈ s.error? line, e.line = line := by
  intro e he
  obtain ⟨complaint, -, rfl⟩ := Option.map_eq_some_iff.1 he
  rfl

theorem forall₂_collect {α : Type} {p : Segment → Bool} {R : Segment → α → Prop}
    {f : Nat → Segment → Option α}
    (hf : ∀ line s, (p s = true ∧ ∃ a, f line s = some a ∧ R s a) ∨ (p s = false ∧ f line s = none))
    (segments : List Segment) :
    ∀ line, List.Forall₂ R (segments.filter p) (collect f line segments) := by
  induction segments with
  | nil => exact fun _ => .nil
  | cons s rest ih =>
    intro line
    rw [collect]
    rcases hf (line + s.newlines) s with ⟨hp, a, ha, hs⟩ | ⟨hp, ha⟩
    · rw [List.filter_cons_of_pos hp, ha]
      exact .cons hs (ih _)
    · rw [List.filter_cons_of_neg (by simp [hp]), ha]
      exact ih _

end Segment

open Segment

/-- What scanning gives, in terms of the segments of a source. -/
theorem scan_eq (source : String) :
    scan source =
      { tokens := collect token? 1 (split source.toList) ++
          [⟨.endOfFile, "", 1 + source.toList.count '\n'⟩]
        errors := collect error? 1 (split source.toList) } := by
  have hcut : Munched source.toList (split source.toList) := munched_iff.2 rfl
  simp only [scan, filterMap_withLines, withLines_last, hcut.flatMap_text]

/-- **Every source has exactly one cut into longest segments, and its tokens are those of the cut.**
The segments make up the whole source.  Its tokens are the literals, words and operators among them,
in order, each with the text of its segment, and then one end of the source without text; its errors
are the stray characters and the text that is not closed. -/
theorem scan_maximal_munch (source : String) :
    ∃ segments, (∀ other, Munched source.toList other ↔ other = segments) ∧
      segments.flatMap Segment.text = source.toList ∧
      (∃ tokens line, (scan source).tokens = tokens ++ [⟨.endOfFile, "", line⟩] ∧
        List.Forall₂ IsTokenOf (segments.filter isToken) tokens) ∧
      List.Forall₂ IsErrorOf (segments.filter isFault) (scan source).errors := by
  rw [scan_eq]
  exact ⟨split source.toList, fun other => munched_iff, (munched_iff.2 rfl).flatMap_text,
    ⟨_, _, rfl, forall₂_collect isTokenOf_token? _ 1⟩, forall₂_collect isErrorOf_error? _ 1⟩

end Scriptlet
