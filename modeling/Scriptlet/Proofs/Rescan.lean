import Scriptlet.Proofs.Munch

/-!
# Scanning tokens again

The tokens of a source can be written out again, in any layout: if there is at least one blank
between each two of them, scanning finds the same tokens and no errors, whatever the source was.  A
blank prolongs no token, so each token ends where its lexeme does.

* `spaced` : texts with separators between them;
* `Segment.ends_of_blank` : a token ends before a blank, and at the end;
* `Segment.split_spaced` : the segments of spaced tokens are the tokens and the blanks;
* `rescan_stable` : **tokens with blanks between them scan to themselves.**
-/

namespace Scriptlet

/-- What may be put between two tokens: blanks, at least one. -/
abbrev Separator := { s : String // s ≠ "" ∧ ∀ c ∈ s.toList, c ∈ [' ', '\t', '\r', '\n'] }

/-- A single space. -/
def Separator.space : Separator := ⟨" ", by decide, by simp⟩

/-- Texts in order, with separators between them, the first of which follows the first text. -/
def spaced (separator : Nat → Separator) : List String → String
  | [] => ""
  | [text] => text
  | text :: next :: rest =>
    text ++ (separator 0).val ++ spaced (fun i => separator (i + 1)) (next :: rest)

theorem spaced_space (texts : List String) :
    spaced (fun _ => .space) texts = " ".intercalate texts := by
  induction texts with
  | nil => simp [spaced]
  | cons text rest ih =>
    cases rest with
    | nil => simp [spaced]
    | cons next rest => rw [spaced, ih, String.intercalate_cons_cons]; rfl

namespace Segment

variable {s : Segment} {rest : List Char}

/-! ### Tokens and blanks -/

theorem breaks_of_blank {p : Char → Bool}
    (hp : [' ', '\t', '\r', '\n'].all (fun d => !p d) = true)
    (h : ∀ c ∈ rest.head?, c ∈ [' ', '\t', '\r', '\n']) : Breaks p rest := by
  intro c hc
  simpa using List.all_eq_true.1 hp c (h c hc)

/-- A token ends before a blank, and at the end of a text. -/
theorem ends_of_blank (hs : s.isToken = true)
    (h : ∀ c ∈ rest.head?, c ∈ [' ', '\t', '\r', '\n']) : s.Ends rest := by
  cases s with
  | string body => trivial
  | number whole fraction =>
    have hdigit : Breaks Char.isDigit rest := breaks_of_blank (by decide) h
    cases fraction with
    | nil =>
      refine ⟨hdigit, ?_⟩
      rintro more rfl
      exact absurd (h '.' rfl) (by decide)
    | cons d fraction => exact hdigit
  | word name => exact breaks_of_blank (p := isWordPart) (by decide) h
  | operator s =>
    intro c hc
    have hblank := h c hc
    have hlast : Symbol.all.all (fun t => t.text.toList.all fun c =>
        !List.contains [' ', '\t', '\r', '\n'] c) = true := by decide
    refine ⟨fun htext => ?_, fun t ht => ?_⟩
    · obtain rfl : c = '/' := by simpa using congrArg List.getLast? htext
      exact absurd hblank (by decide)
    · have ht' := List.all_eq_true.1 hlast t (by cases t <;> decide)
      have hc' := List.all_eq_true.1 ht' c (by simp [ht])
      rw [List.contains_iff_mem.2 hblank] at hc'
      cases hc'
  | _ => cases hs

/-- What follows a token does not matter to what it looks like. -/
theorem stands_of_isToken (hs : s.isToken = true) (h : s.Stands rest) (behind : List Char) :
    s.Stands behind := by
  rcases h with h | ⟨c, rfl, -⟩
  · cases h with
    | string hbody => exact .inl (.string hbody)
    | number hne hwhole hfraction => exact .inl (.number hne hwhole hfraction)
    | word hstart hname => exact .inl (.word hstart hname)
    | operator => exact .inl .operator
    | _ => cases hs
  · cases hs

theorem stands_of_mem_split {cs : List Char} : ∀ s ∈ split cs, ∃ rest, s.Stands rest := by
  induction cs using split.induct with
  | case1 => rw [split]; simp
  | case2 c cs ih =>
    rw [split]
    intro s hs
    rcases List.mem_cons.1 hs with rfl | hs
    · exact ⟨_, (cut_first c cs).stands⟩
    · exact ih s hs

theorem split_blanks {blanks : List Char} (h : ∀ c ∈ blanks, c ∈ [' ', '\t', '\r', '\n'])
    (rest : List Char) : split (blanks ++ rest) = blanks.map blank ++ split rest := by
  induction blanks with
  | nil => rfl
  | cons c blanks ih =>
    have hc : Stands (blank c) (blanks ++ rest) := .inl (.blank (h c (by simp)))
    have hsplit := split_append hc trivial
    rw [ih fun d hd => h d (by simp [hd])] at hsplit
    exact hsplit

/-! ### Spaced tokens -/

/-- **The segments of spaced tokens** are the tokens, with nothing but blanks between them. -/
theorem split_spaced (segments : List Segment)
    (h : ∀ s ∈ segments, s.isToken = true ∧ ∃ rest, s.Stands rest) : ∀ separator : Nat → Separator,
    let cut := split (spaced separator (segments.map fun s => String.ofList s.text)).toList
    cut.filter isToken = segments ∧ ∀ s ∈ cut, s.isFault = false := by
  induction segments with
  | nil =>
    intro separator
    simp [spaced, split]
  | cons s rest ih =>
    intro separator
    obtain ⟨hs, behind, hstands⟩ := h s (by simp)
    have hrest : ∀ t ∈ rest, t.isToken = true ∧ ∃ behind, t.Stands behind :=
      fun t ht => h t (by simp [ht])
    have hfault : s.isFault = false := by cases s <;> first | rfl | cases hs
    cases rest with
    | nil =>
      have hcut := split_append (stands_of_isToken hs hstands []) (ends_of_blank hs (by simp))
      rw [List.append_nil, split] at hcut
      simp [spaced, hcut, hs, hfault]
    | cons t rest =>
      obtain ⟨htokens, hfaults⟩ := ih hrest fun i => separator (i + 1)
      obtain ⟨hne, hblank⟩ := (separator 0).property
      generalize htail : spaced (fun i => separator (i + 1))
        ((t :: rest).map fun s => String.ofList s.text) = tail at htokens hfaults
      have hends : s.Ends ((separator 0).val.toList ++ tail.toList) := by
        refine ends_of_blank hs fun c hc => hblank c ?_
        rw [List.head?_append_of_ne_nil _ (by simpa using hne)] at hc
        exact List.mem_of_head? hc
      have hcut := split_append (stands_of_isToken hs hstands _) hends
      rw [split_blanks hblank] at hcut
      have htext : spaced separator ((s :: t :: rest).map fun s => String.ofList s.text) =
          String.ofList s.text ++ (separator 0).val ++ tail := by
        rw [← htail]; rfl
      simp only [htext, String.toList_append, String.toList_ofList, List.append_assoc, hcut]
      refine ⟨?_, fun u hu => ?_⟩
      · rw [List.filter_cons_of_pos hs, List.filter_append, htokens]
        simp [isToken, List.filter_map]
      · simp only [List.mem_cons, List.mem_append, List.mem_map] at hu
        rcases hu with rfl | ⟨c, -, rfl⟩ | hu
        · exact hfault
        · rfl
        · exact hfaults u hu

/-! ### Tokens without their lines -/

/-- What a token is apart from its line, by its segment. -/
def label? (s : Segment) : Option (Kind × String) :=
  s.kind?.map fun kind => (kind, String.ofList s.text)

theorem map_collect_token? (segments : List Segment) : ∀ line,
    (collect token? line segments).map (fun t => (t.kind, t.lexeme)) =
      (segments.filter isToken).filterMap label? := by
  induction segments with
  | nil => exact fun _ => rfl
  | cons s rest ih =>
    intro line
    rw [collect, List.map_append, ih]
    have hkind := kind?_isSome_iff s
    cases h : s.kind? with
    | none =>
      rw [h] at hkind
      rw [List.filter_cons_of_neg (by simp [← hkind])]
      simp [token?, h]
    | some kind =>
      rw [h] at hkind
      rw [List.filter_cons_of_pos hkind.symm]
      simp [token?, label?, h]

theorem map_lexeme_collect (segments : List Segment) (line : Nat) :
    (collect token? line segments).map Token.lexeme =
      (segments.filter isToken).map fun s => String.ofList s.text := by
  have h := forall₂_collect isTokenOf_token? segments line
  have heq : List.Forall₂ Eq ((collect token? line segments).map Token.lexeme)
      ((segments.filter isToken).map fun s => String.ofList s.text) := by
    rw [List.forall₂_map_left_iff, List.forall₂_map_right_iff]
    exact (h.imp fun s t hst => hst.1).flip
  rwa [List.forall₂_eq_eq_eq] at heq

theorem isEnd_of_mem_collect (segments : List Segment) :
    ∀ line, ∀ t ∈ collect token? line segments, t.kind.isEnd = false := by
  induction segments with
  | nil => simp [collect]
  | cons s rest ih =>
    intro line t ht
    rw [collect, List.mem_append] at ht
    rcases ht with ht | ht
    · rcases isTokenOf_token? (line + s.newlines) s with ⟨-, u, hu, -, hmeans⟩ | ⟨-, hnone⟩
      · obtain rfl : t = u := by simpa [hu] using ht
        generalize t.kind = kind at hmeans
        cases hmeans <;> rfl
      · simp [hnone] at ht
    · exact ih _ t ht

theorem collect_error?_eq_nil (segments : List Segment) (h : ∀ s ∈ segments, s.isFault = false) :
    ∀ line, collect error? line segments = [] := by
  induction segments with
  | nil => exact fun _ => rfl
  | cons s rest ih =>
    intro line
    rw [collect, ih fun t ht => h t (by simp [ht])]
    rcases isErrorOf_error? (line + s.newlines) s with ⟨hs, -⟩ | ⟨-, he⟩
    · rw [h s (by simp)] at hs; cases hs
    · rw [he]; rfl

end Segment

open Segment

/-- A text scans without errors to given tokens and an end of the source behind them.  Lines apart,
the tokens are the same: in kind, with what it carries, and in lexeme. -/
def ScansTo (text : String) (tokens : List Token) : Prop :=
  (scan text).errors = [] ∧
    ∃ again line, (scan text).tokens = again ++ [⟨.endOfFile, "", line⟩] ∧
      again.map (fun t => (t.kind, t.lexeme)) = tokens.map fun t => (t.kind, t.lexeme)

/-- **Tokens with blanks between them scan to themselves.**  Take the tokens of any source, with or
without errors, its end apart, and write out their lexemes in order with any separators between
them, each of at least one blank: that text scans without errors to the same tokens.  So it is with
single spaces. -/
theorem rescan_stable (source : String) :
    let tokens := (scan source).tokens.filter fun t => !t.kind.isEnd
    (∀ separator, ScansTo (spaced separator (tokens.map Token.lexeme)) tokens) ∧
      ScansTo (" ".intercalate (tokens.map Token.lexeme)) tokens := by
  have htokens : ((scan source).tokens.filter fun t => !t.kind.isEnd) =
      collect token? 1 (split source.toList) := by
    rw [scan_eq, List.filter_append, List.filter_eq_self.2]
    · simp [Kind.isEnd]
    · intro t ht
      rw [isEnd_of_mem_collect _ 1 t ht]; rfl
  have hstands : ∀ s ∈ (split source.toList).filter isToken,
      s.isToken = true ∧ ∃ rest, s.Stands rest := by
    intro s hs
    obtain ⟨hmem, htoken⟩ := List.mem_filter.1 hs
    exact ⟨htoken, stands_of_mem_split s hmem⟩
  have hspaced : ∀ separator, ScansTo
      (spaced separator ((collect token? 1 (split source.toList)).map Token.lexeme))
      (collect token? 1 (split source.toList)) := by
    intro separator
    obtain ⟨hcut, hfaults⟩ := split_spaced _ hstands separator
    rw [map_lexeme_collect, ScansTo, scan_eq]
    refine ⟨collect_error?_eq_nil _ hfaults 1, _, _, rfl, ?_⟩
    rw [map_collect_token?, map_collect_token?, hcut]
  simp only [htokens]
  exact ⟨hspaced, spaced_space _ ▸ hspaced fun _ => .space⟩

end Scriptlet
