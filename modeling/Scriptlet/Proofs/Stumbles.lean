import Mathlib.Data.List.Forall2
import Mathlib.Data.List.Perm.Subperm
import Scriptlet.Proofs.Recovery

/-!
# No token is blamed twice

An error is either about an assignment to something that is no variable, which is found after the
value has been read and points back at the equals sign; or the parser stumbles over the token ahead.
Then it gets stuck there, and recovery uses up that token before anything else is read.  So while
tokens are used up one after the other, those that the parser stumbles over are picked from them in
order, each at most once; and an equals sign is looked back at only by the assignment that took it.
The only token that recovery does not get past is the end of the source, which may be blamed over
and over.

* `Blamed` : what errors blame, while some tokens are used up;
* `Rule.Orderly` : a rule blames tokens in order, and recovery gets past what it is stuck at;
* `Rule.orderly_respected` : **every rule does so**;
* `exists_blamed` : the blame for a whole stream, whatever the lines of its tokens;
* `no_token_is_blamed_twice` : **what this says about lines that increase from token to token.**
-/

namespace Scriptlet

open SyntaxError

/-- Whether an error is about an assignment to something that is no variable. -/
def SyntaxError.isMisassignment (e : SyntaxError) : Bool := e.complaint.isMisassignment

/-- The errors about assignments to something that is no variable. -/
def misassignments (errors : List SyntaxError) : List SyntaxError :=
  errors.filter fun e => e.isMisassignment

/-- All other errors: those about a token that could not follow. -/
def stumbles (errors : List SyntaxError) : List SyntaxError :=
  errors.filter fun e => !e.isMisassignment

/-- What errors blame, while tokens are used up and some more are ahead. -/
structure Blamed (ts ahead : List Token) (errors : List SyntaxError) : Prop where
  /-- The parser stumbles over used tokens, in order and over each at most once, and then over those
  ahead. -/
  inOrder : ∃ blamed : List Token, blamed.Sublist ts ∧
    List.Forall₂ (fun e t => ∃ complaint, e = atToken t complaint) (stumbles errors)
      (blamed ++ ahead)
  /-- All assignments are at equals signs that have been used, each at another one. -/
  atEquals : ∃ equals : List Token, equals.Subperm (ts.filter fun t => t.kind.isSymbol .equal) ∧
    misassignments errors = equals.map fun t => atToken t .invalidAssignmentTarget

variable {ts us ahead ahead' : List Token} {errors more : List SyntaxError}

theorem blamed_nil (ts : List Token) : Blamed ts [] [] :=
  ⟨⟨[], ts.nil_sublist, .nil⟩, ⟨[], List.nil_subperm, rfl⟩⟩

/-- What is used up behind some tokens is blamed behind them, if nothing was blamed ahead. -/
theorem Blamed.append (h : Blamed ts ahead errors) (h' : Blamed us ahead' more)
    (hor : ahead = [] ∨ us = []) : Blamed (ts ++ us) (ahead ++ ahead') (errors ++ more) := by
  obtain ⟨⟨blamed, hsub, hstumbles⟩, ⟨equals, hperm, hequals⟩⟩ := h
  obtain ⟨⟨blamed', hsub', hstumbles'⟩, ⟨equals', hperm', hequals'⟩⟩ := h'
  have hswap : ahead ++ blamed' = blamed' ++ ahead := by
    rcases hor with rfl | rfl
    · rw [List.append_nil, List.nil_append]
    · rw [List.sublist_nil.1 hsub', List.append_nil, List.nil_append]
  have hall : blamed ++ ahead ++ (blamed' ++ ahead') = blamed ++ blamed' ++ (ahead ++ ahead') := by
    calc blamed ++ ahead ++ (blamed' ++ ahead')
        = blamed ++ (ahead ++ blamed') ++ ahead' := by simp only [List.append_assoc]
      _ = blamed ++ (blamed' ++ ahead) ++ ahead' := by rw [hswap]
      _ = blamed ++ blamed' ++ (ahead ++ ahead') := by simp only [List.append_assoc]
  refine ⟨⟨blamed ++ blamed', hsub.append hsub', ?_⟩, ⟨equals ++ equals', ?_, ?_⟩⟩
  · rw [stumbles, List.filter_append, ← hall]
    exact List.rel_append hstumbles hstumbles'
  · rw [List.filter_append]
    exact hperm.append hperm'
  · rw [misassignments, List.filter_append, List.map_append, ← hequals, ← hequals']
    rfl

/-- An error about the token ahead. -/
theorem blamed_ahead (t : Token) {complaint : Complaint} (h : complaint.isMisassignment = false) :
    Blamed [] [t] [atToken t complaint] := by
  have hkept : (atToken t complaint).isMisassignment = false := h
  refine ⟨⟨[], .slnil, ?_⟩, ⟨[], .refl _, ?_⟩⟩
  · simp only [stumbles, List.filter_cons, hkept]
    exact .cons ⟨complaint, rfl⟩ .nil
  · simp only [misassignments, List.filter_cons, hkept]
    rfl

/-- An error about the equals sign that was taken first. -/
theorem Blamed.misassign {equal : Token} (hequal : equal.kind.isSymbol .equal = true)
    (h : Blamed ts ahead errors) :
    Blamed (equal :: ts) ahead (errors ++ [atToken equal .invalidAssignmentTarget]) := by
  obtain ⟨⟨blamed, hsub, hstumbles⟩, ⟨equals, hperm, hequals⟩⟩ := h
  refine ⟨⟨blamed, hsub.cons equal, ?_⟩, ⟨equals ++ [equal], ?_, ?_⟩⟩
  · rw [stumbles, List.filter_append]
    exact (List.append_nil (stumbles errors)).symm ▸ hstumbles
  · rw [List.filter_cons_of_pos (by exact hequal)]
    have hmove := (List.perm_append_singleton equal equals).subperm
    exact hmove.trans ((List.subperm_cons equal).2 hperm)
  · rw [misassignments, List.filter_append, List.map_append, ← hequals]
    rfl

/-- Tokens ahead are used up. -/
theorem Blamed.use (h : Blamed ts (ahead ++ ahead') errors) (hsub : ahead.Sublist us) :
    Blamed (ts ++ us) ahead' errors := by
  obtain ⟨⟨blamed, hblamed, hstumbles⟩, ⟨equals, hperm, hequals⟩⟩ := h
  refine ⟨⟨blamed ++ ahead, hblamed.append hsub, ?_⟩, ⟨equals, ?_, hequals⟩⟩
  · rwa [List.append_assoc]
  · rw [List.filter_append]
    exact hperm.trans (List.sublist_append_left _ _).subperm

/-- On which lines the parser stumbles. -/
theorem Blamed.map_line (h : Blamed ts ahead errors) : ∃ blamed : List Token, blamed.Sublist ts ∧
    (stumbles errors).map (·.line) = (blamed ++ ahead).map (·.line) := by
  obtain ⟨blamed, hsub, hstumbles⟩ := h.inOrder
  refine ⟨blamed, hsub, ?_⟩
  rw [← List.forall₂_eq_eq_eq, List.forall₂_map_left_iff, List.forall₂_map_right_iff]
  exact hstumbles.imp fun error t ⟨complaint, herror⟩ => by rw [herror]; rfl

/-- Each error is about a token. -/
theorem Blamed.exists_token (h : Blamed ts ahead errors) {error : SyntaxError}
    (herror : error ∈ stumbles errors) :
    ∃ t ∈ ts ++ ahead, ∃ complaint, error = atToken t complaint := by
  obtain ⟨blamed, hsub, hstumbles⟩ := h.inOrder
  obtain ⟨i, hi, rfl⟩ := List.getElem_of_mem herror
  have hi' : i < (blamed ++ ahead).length := hstumbles.length_eq ▸ hi
  exact ⟨_, (hsub.append (.refl ahead)).subset (List.getElem_mem hi'), hstumbles.get hi hi'⟩

/-! ### From cursor to cursor -/

section Cursors

variable {c c₁ c₂ : Cursor} {n : Nat}

/-- Taking a token uses it up, if one is left. -/
theorem Cursor.exists_uses (c : Cursor) : ∃ ts, c.Uses ts c.next := by
  cases hend : c.atEnd with
  | true => exact ⟨[], by rw [Cursor.next_of_atEnd hend]; exact .refl c⟩
  | false =>
    obtain ⟨rest, last⟩ := c
    cases rest with
    | nil => cases hend
    | cons t rest =>
      obtain ⟨ts, huse, -⟩ := Cursor.exists_uses_next (c := ⟨t :: rest, last⟩) hend
      exact ⟨ts, huse⟩

/-- Where nothing is left, nothing is used up. -/
theorem Cursor.Uses.eq_of_atEnd (h : c.Uses us c₁) (hend : c.atEnd = true) : us = [] ∧ c₁ = c := by
  obtain ⟨rest, last⟩ := c
  obtain ⟨rest₁, last₁⟩ := c₁
  obtain ⟨hrest, hlast, hinner⟩ := h
  obtain rfl : last₁ = last := hlast
  obtain rfl : us = [] := by
    refine List.eq_nil_iff_forall_not_mem.2 fun t ht => ?_
    obtain ⟨u, us, rfl⟩ := List.exists_cons_of_ne_nil (List.ne_nil_of_mem ht)
    obtain rfl : rest = u :: us ++ rest₁ := hrest
    have hu := hinner u List.mem_cons_self
    exact absurd (hend.symm.trans hu) (by decide)
  exact ⟨rfl, congrArg (Cursor.mk · last₁) hrest.symm⟩

/-- The first token that is used up is the one ahead. -/
theorem Cursor.Uses.exists_cons (h : c.Uses us c₁) (hne : us ≠ []) : ∃ vs, us = c.peek :: vs := by
  obtain ⟨t, vs, rfl⟩ := List.exists_cons_of_ne_nil hne
  refine ⟨vs, ?_⟩
  rw [Cursor.peek, h.rest]
  rfl

/-- From a cursor to another one tokens are used up, and errors blame them and then the one ahead:
that one at most `n` times, unless it is the end of the source. -/
def Leads (n : Nat) (c c' : Cursor) (errors : List SyntaxError) : Prop :=
  ∃ ts again, c.Uses ts c' ∧ (again ≤ n ∨ c'.atEnd = true) ∧
    Blamed ts (List.replicate again c'.peek) errors

theorem Leads.ended (h : Leads n c c₁ errors) (hc : c.Ended) : c₁.Ended := by
  obtain ⟨ts, again, huse, -⟩ := h
  exact huse.ended hc

theorem leads_of_uses (h : c.Uses us c₁) : Leads 0 c c₁ [] :=
  ⟨us, 0, h, .inl (Nat.le_refl 0), blamed_nil us⟩

theorem Leads.trans (h : Leads 0 c c₁ errors) (h' : Leads n c₁ c₂ more) :
    Leads n c c₂ (errors ++ more) := by
  obtain ⟨ts, again, huse, hagain, hblamed⟩ := h
  obtain ⟨us, again', huse', hagain', hblamed'⟩ := h'
  rcases hagain with hzero | hend
  · obtain rfl := Nat.le_zero.1 hzero
    exact ⟨ts ++ us, again', huse.trans huse', hagain', hblamed.append hblamed' (.inl rfl)⟩
  · -- what comes behind uses up nothing, and blames the same token over and over
    obtain ⟨rfl, rfl⟩ := huse'.eq_of_atEnd hend
    refine ⟨ts, again + again', huse, .inr hend, ?_⟩
    rw [List.replicate_add, ← List.append_nil ts]
    exact hblamed.append hblamed' (.inr rfl)

theorem leads_fail {complaint : Complaint} (h : complaint.isMisassignment = false) (c : Cursor) :
    Leads 1 c c [atToken c.peek complaint] :=
  ⟨[], 1, .refl c, .inl (Nat.le_refl 1), blamed_ahead c.peek h⟩

/-- Recovery gets past the token that was blamed last. -/
theorem Leads.resume (h : Leads 1 c c₁ errors) : Leads 0 c (Rule.resume c₁) errors := by
  obtain ⟨ts, again, huse, hagain, hblamed⟩ := h
  cases hend : c₁.atEnd with
  | true =>
    rw [Rule.resume_of_atEnd hend]
    exact ⟨ts, again, huse, .inr hend, hblamed⟩
  | false =>
    have hone : again ≤ 1 := hagain.resolve_right (by rw [hend]; decide)
    obtain ⟨us, huse', hshorter⟩ := Rule.uses_resume c₁
    have hne : us ≠ [] := by
      rintro rfl
      have hlength := huse'.length
      have hless := hshorter hend
      rw [List.length_nil, Nat.zero_add] at hlength
      omega
    obtain ⟨vs, rfl⟩ := huse'.exists_cons hne
    rw [← List.append_nil (List.replicate again c₁.peek)] at hblamed
    refine ⟨_, 0, huse.trans huse', .inl (Nat.le_refl 0), hblamed.use ?_⟩
    exact ((List.replicate_sublist_replicate _).2 hone).trans (vs.nil_sublist.cons_cons c₁.peek)

/-- The equals sign that was taken first is blamed last. -/
theorem Leads.misassign {equal : Token} (hequal : equal.kind.isSymbol .equal = true)
    (huse : c.Uses [equal] c₁) (h : Leads n c₁ c₂ errors) :
    Leads n c c₂ (errors ++ [atToken equal .invalidAssignmentTarget]) := by
  obtain ⟨us, again, huse', hagain, hblamed⟩ := h
  exact ⟨equal :: us, again, huse.trans huse', hagain, hblamed.misassign hequal⟩

end Cursors

namespace Rule

variable {α : Type}

/-! ### Rules -/

/-- A rule blames tokens in order as it uses them up.  It gets stuck at a token that it has blamed
once, or at the end of the source. -/
def Orderly (x : Rule α) : Prop :=
  ∀ c, c.Ended → match x c with
    | .done _ c' errors => Leads 0 c c' errors
    | .stuck c' errors => Leads 1 c c' errors
    | .endless => True

theorem orderly_composes : Composes fun _ x _ => Orderly x where
  pure _ c _ := leads_of_uses (.refl c)
  bind {α β x y f g} hx hf c hc := by
    have hread := hx c hc
    rw [bind_apply]
    cases hfirst : x c with
    | endless => trivial
    | stuck c₁ errors => rwa [hfirst] at hread
    | done a c₁ errors =>
      rw [hfirst] at hread
      have hread' := hf a c₁ (hread.ended hc)
      dsimp only
      cases hsecond : f a c₁ with
      | endless => trivial
      | stuck c₂ more => rw [hsecond] at hread'; exact hread.trans hread'
      | done b c₂ more => rw [hsecond] at hread'; exact hread.trans hread'
  peek c _ := leads_of_uses (.refl c)
  advance c _ := by
    obtain ⟨ts, huse⟩ := c.exists_uses
    exact leads_of_uses huse

/-- **Every rule blames tokens in order, and recovery gets past them.** -/
theorem orderly_respected : Respected fun _ x _ => Orderly x where
  toComposes := orderly_composes
  endless _ _ _ := trivial
  fail hcomplaint c _ := leads_fail hcomplaint c
  stopped c _ := leads_of_uses (.refl c)
  assigned {x _} hx target c hc := by
    cases hequal : c.peek.kind.isSymbol .equal with
    | false =>
      rw [assigned, peek_bind, hequal]
      exact leads_of_uses (.refl c)
    | true =>
      have huse := hc.uses_next (Kind.isEnd_of_isSymbol hequal)
      have hread := hx c.next (huse.ended hc)
      rw [assigned, peek_bind, hequal, if_pos rfl, advance_bind, bind_apply]
      cases hvalue : x c.next with
      | endless => trivial
      | stuck c₁ errors =>
        rw [hvalue] at hread
        exact (leads_of_uses huse).trans hread
      | done v c₁ errors =>
        rw [hvalue] at hread
        cases target with
        | reference name =>
          change Leads 0 c c₁ (errors ++ [])
          rw [List.append_nil]
          exact (leads_of_uses huse).trans hread
        | _ => exact hread.misassign hequal huse
  recover {α x y} hx c hc := by
    have hread := hx c hc
    rw [recover_apply]
    cases hfirst : x c with
    | endless => trivial
    | done a c₁ errors => rwa [hfirst] at hread
    | stuck c₁ errors => rw [hfirst] at hread; exact hread.resume

end Rule

/-! ### Whole streams -/

variable {e : Token}

/-- With one end of the source behind them, only tokens before it are used up, and it is the token
ahead when nothing is left. -/
theorem Cursor.Uses.exists_left {c : Cursor} (hts : ∀ t ∈ ts, t.kind ≠ .endOfFile)
    (he : e.kind = .endOfFile) (h : Cursor.Uses ⟨ts ++ [e], e⟩ us c) :
    ∃ vs, ts = us ++ vs ∧ (c.atEnd = true → c.peek = e) := by
  have hended : c.Ended := h.ended ⟨e, by simp, Kind.isEnd_iff.2 he⟩
  have hne : c.rest ≠ [] := by
    obtain ⟨t, ht, -⟩ := hended
    exact List.ne_nil_of_mem ht
  obtain ⟨vs, f, hrest⟩ := (List.eq_nil_or_concat' c.rest).resolve_left hne
  have hall : ts ++ [e] = us ++ vs ++ [f] := by rw [List.append_assoc, ← hrest]; exact h.rest
  obtain ⟨rfl, hf⟩ := List.append_inj' hall rfl
  obtain rfl := List.singleton_inj.1 hf
  refine ⟨vs, rfl, fun hend => ?_⟩
  cases vs with
  | nil => rw [Cursor.peek, hrest]; rfl
  | cons v vs =>
    have hpeek := Cursor.isEnd_of_atEnd hended hend
    rw [Cursor.peek, hrest] at hpeek
    exact absurd (Kind.isEnd_iff.1 hpeek) (hts v (by simp))

/-- **The blame for a whole stream.**  The parser stumbles over tokens in order, over each at most
once, and then over the end of the source as often as it likes; and an assignment to something that
is no variable is reported at its own equals sign. -/
theorem exists_blamed (hts : ∀ t ∈ ts, t.kind ≠ .endOfFile) (he : e.kind = .endOfFile) :
    ∃ parsed, parse? (ts ++ [e]) = some parsed ∧
      ∃ again, Blamed ts (List.replicate again e) parsed.errors := by
  obtain ⟨parsed, finish, hparse, hread⟩ := exists_parse?_eq ts he
  have hended : Cursor.Ended ⟨ts ++ [e], e⟩ := ⟨e, by simp, Kind.isEnd_iff.2 he⟩
  have hleads := Rule.program_respects Rule.orderly_respected (Nat.le_refl ((ts ++ [e]).length + 1))
    (fun c _ => leads_of_uses (.refl c)) ⟨ts ++ [e], e⟩ hended
  rw [Rule.program_eq, hread _ _ (Nat.lt_succ_self _) (Nat.lt_succ_self _)] at hleads
  obtain ⟨us, again, huse, hagain, hblamed⟩ := hleads
  obtain ⟨vs, rfl, hpeek⟩ := huse.exists_left hts he
  refine ⟨parsed, hparse, again, ?_⟩
  have hahead : List.replicate again finish.peek = List.replicate again e := by
    rcases hagain with hzero | hend
    · obtain rfl := Nat.le_zero.1 hzero
      rfl
    · rw [hpeek hend]
  have hnone : Blamed us ([] ++ List.replicate again finish.peek) parsed.errors := hblamed
  rw [← hahead]
  exact hnone.use vs.nil_sublist

/-- **No token is blamed twice.**  Take any tokens with no end of the source among them and one
behind them, all on lines of their own, one below the other.  Parsing them has an answer.  The lines
of its errors increase, but that the line of the end may come several times, last of all; each error
is about a token of the stream.  This does not count assignments to something that is no variable:
they are reported at equals signs, at each one at most once. -/
theorem no_token_is_blamed_twice (ts : List Token) (e : Token) (hts : ∀ t ∈ ts, t.kind ≠ .endOfFile)
    (he : e.kind = .endOfFile) (hlines : (ts ++ [e]).Pairwise fun t u => t.line < u.line) :
    ∃ parsed, parse? (ts ++ [e]) = some parsed ∧
      (∃ lines again,
        (stumbles parsed.errors).map (·.line) = lines ++ List.replicate again e.line ∧
        (lines ++ [e.line]).Pairwise (· < ·)) ∧
      (∀ error ∈ stumbles parsed.errors, ∃ t ∈ ts ++ [e], ∃ complaint,
        error = atToken t complaint) ∧
      ∃ equals : List Token, equals.Nodup ∧ (∀ t ∈ equals, t ∈ ts ∧ t.kind = .symbol .equal) ∧
        misassignments parsed.errors = equals.map fun t => atToken t .invalidAssignmentTarget := by
  obtain ⟨parsed, hparse, again, hblamed⟩ := exists_blamed hts he
  refine ⟨parsed, hparse, ?_, fun error herror => ?_, ?_⟩
  · obtain ⟨blamed, hsub, hmap⟩ := hblamed.map_line
    refine ⟨blamed.map (·.line), again, by simpa using hmap, ?_⟩
    have hpairwise := hlines.sublist (hsub.append (.refl [e]))
    simpa using hpairwise.map Token.line fun _ _ h => h
  · obtain ⟨t, ht, habout⟩ := hblamed.exists_token herror
    refine ⟨t, ?_, habout⟩
    rcases List.mem_append.1 ht with ht | ht
    · exact List.mem_append_left _ ht
    · rw [List.eq_of_mem_replicate ht]
      simp
  · obtain ⟨equals, ⟨found, hperm, hsub⟩, hequals⟩ := hblamed.atEquals
    have hnodup : ts.Nodup := by
      refine (hlines.sublist (List.sublist_append_left ts [e])).imp ?_
      rintro t u hlt rfl
      exact Nat.lt_irrefl _ hlt
    refine ⟨equals, ?_, fun t ht => ?_, hequals⟩
    · exact hperm.nodup_iff.1 ((hnodup.filter _).sublist hsub)
    · obtain ⟨hmem, hequal⟩ := List.mem_filter.1 (hsub.subset (hperm.mem_iff.2 ht))
      exact ⟨hmem, Kind.eq_of_isSymbol hequal⟩

/-- The tokens of `nil = nil; print; { print`, each on a line of its own. -/
def brokenLines : List Token :=
  [⟨.keyword .nil, "nil", 1⟩, ⟨.symbol .equal, "=", 2⟩, ⟨.keyword .nil, "nil", 3⟩,
    ⟨.symbol .semicolon, ";", 4⟩, ⟨.keyword .print, "print", 5⟩, ⟨.symbol .semicolon, ";", 6⟩,
    ⟨.symbol .leftBrace, "\x7b", 7⟩, ⟨.keyword .print, "print", 8⟩]

/-- The second semicolon is blamed once, and the end twice: for the missing value and for the
missing brace. -/
theorem brokenLines_blamed :
    (∀ t ∈ brokenLines, t.kind ≠ .endOfFile) ∧
    ((brokenLines ++ ([⟨.endOfFile, "", 9⟩] : List Token)).Pairwise fun t u => t.line < u.line) ∧
    (∃ lines again, [6, 9, 9] = lines ++ List.replicate again 9 ∧
      (lines ++ [9]).Pairwise (· < ·)) ∧
    ∃ equals : List Token, equals.Nodup ∧
      (∀ t ∈ equals, t ∈ brokenLines ∧ t.kind = .symbol .equal) ∧
      [⟨2, .lexeme "=", .invalidAssignmentTarget⟩] =
        equals.map fun t => atToken t .invalidAssignmentTarget := by
  have hinner : ∀ t ∈ brokenLines, t.kind ≠ .endOfFile := by decide
  have hlines : (brokenLines ++ ([⟨.endOfFile, "", 9⟩] : List Token)).Pairwise
      fun t u => t.line < u.line := by decide
  obtain ⟨parsed, hparse, hstumbles, -, hequals⟩ :=
    no_token_is_blamed_twice brokenLines ⟨.endOfFile, "", 9⟩ hinner rfl hlines
  cases hparse
  exact ⟨hinner, hlines, hstumbles, hequals⟩

end Scriptlet
