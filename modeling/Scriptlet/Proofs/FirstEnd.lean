import Scriptlet.Proofs.Recovery

/-!
# Nothing behind the first end of the source is read

A cursor that has come to an end of the source stays there, and recovery does not go past it either.
So the steps of the grammar cannot tell two streams apart which are the same up to there, whatever
is behind in one of them, and neither can any rule.

* `Rule.UpToEnd` : cursors in such streams, with the same tokens ahead of them;
* `Rule.upToEnd_indistinct` : the steps cannot tell them apart;
* `nothing_is_read_behind_end` : **what is behind the first end of the source makes no difference.**
-/

namespace Scriptlet

namespace Rule

variable {e last : Token} {rest : List Token} {c c' : Cursor}

/-- Two cursors have the same tokens ahead of them, up to an end of the source.  In the first stream
nothing is behind it, and in the second one anything. -/
def UpToEnd (e : Token) (rest : List Token) (last : Token) (c c' : Cursor) : Prop :=
  ∃ ahead, c = ⟨ahead ++ [e], e⟩ ∧ c' = ⟨ahead ++ e :: rest, last⟩

theorem UpToEnd.peek (h : UpToEnd e rest last c c') : c.peek = c'.peek := by
  obtain ⟨ahead, rfl, rfl⟩ := h
  cases ahead <;> rfl

theorem UpToEnd.atEnd (h : UpToEnd e rest last c c') : c.atEnd = c'.atEnd := by
  obtain ⟨ahead, rfl, rfl⟩ := h
  cases ahead <;> rfl

theorem UpToEnd.next (he : e.kind = .endOfFile) (h : UpToEnd e rest last c c') :
    UpToEnd e rest last c.next c'.next := by
  have hatEnd := h.atEnd
  obtain ⟨ahead, rfl, rfl⟩ := h
  rw [Cursor.next, Cursor.next, ← hatEnd]
  cases ahead with
  | nil =>
    have hend : (Cursor.mk ([] ++ [e]) e).atEnd = true := Kind.isEnd_iff.2 he
    rw [hend]
    exact ⟨[], rfl, rfl⟩
  | cons t ahead =>
    split
    · exact ⟨t :: ahead, rfl, rfl⟩
    · exact ⟨ahead, rfl, rfl⟩

/-- The boundary is at the end of the source or before it, and what is behind does not matter. -/
theorem exists_boundary_append (he : e.kind = .endOfFile) (ahead : List Token) : ∀ previous,
    ∃ left, ∀ rest, boundary previous (ahead ++ e :: rest) = left ++ e :: rest := by
  induction ahead with
  | nil =>
    refine fun previous => ⟨[], fun rest => ?_⟩
    rw [List.nil_append, boundary, Kind.isEnd_iff.2 he]
    rfl
  | cons t ahead ih =>
    intro previous
    obtain ⟨left, hleft⟩ := ih t
    by_cases hstop :
      (t.kind.isEnd || previous.kind.isSymbol .semicolon || startsStatement t.kind) = true
    · exact ⟨t :: ahead, fun rest => by rw [List.cons_append, boundary, if_pos hstop]⟩
    · exact ⟨left, fun rest => by rw [List.cons_append, boundary, if_neg hstop, hleft rest]⟩

theorem UpToEnd.resume (he : e.kind = .endOfFile) (h : UpToEnd e rest last c c') :
    UpToEnd e rest last (resume c) (resume c') := by
  have hatEnd := h.atEnd
  obtain ⟨ahead, rfl, rfl⟩ := h
  cases ahead with
  | nil =>
    have hend : (Cursor.mk ([] ++ [e]) e).atEnd = true := Kind.isEnd_iff.2 he
    rw [resume_of_atEnd hend, resume_of_atEnd (hatEnd ▸ hend)]
    exact ⟨[], rfl, rfl⟩
  | cons t ahead =>
    obtain ⟨left, hleft⟩ := exists_boundary_append he ahead t
    simp only [Rule.resume, List.cons_append, hleft]
    split
    · exact ⟨t :: ahead, rfl, rfl⟩
    · exact ⟨left, rfl, rfl⟩

/-- **The steps of the grammar cannot tell apart what is the same up to an end of the source.** -/
theorem upToEnd_indistinct (he : e.kind = .endOfFile) (rest : List Token) (last : Token) :
    Indistinct (UpToEnd e rest last) where
  peek h := h.peek
  stopped h := by rw [h.peek, h.atEnd]
  next h := h.next he
  resume h := h.resume he

end Rule

open Rule

/-- **Nothing behind the first end of the source is read.**  Parsing has an answer for every stream
with an end of the source, and the answer stays the same, statements and errors, if anything is put
behind. -/
theorem nothing_is_read_behind_end (ts rest : List Token) (e : Token) (he : e.kind = .endOfFile) :
    ∃ parsed, parse? (ts ++ [e]) = some parsed ∧ parse? (ts ++ [e] ++ rest) = some parsed := by
  obtain ⟨parsed, finish, hparse, hread⟩ := exists_parse?_eq ts he
  refine ⟨parsed, hparse, ?_⟩
  obtain ⟨last, hlast⟩ : ∃ last, (ts ++ [e] ++ rest).getLast? = some last :=
    ⟨_, List.getLast?_eq_some_getLast (by simp)⟩
  have hle : (ts ++ [e]).length + 1 ≤ (ts ++ [e] ++ rest).length + 1 := by simp
  have hstop : Parallel (UpToEnd e rest last) (stopped fun _ => false) (stopped fun _ => false) :=
    parallel_stopped fun c c' h => by rw [h.atEnd]
  -- the longer stream is read with a larger bound, too
  have hrespected := parallel_respected (upToEnd_indistinct he rest last)
  have hparallel := program_respects hrespected hle hstop
    ⟨ts ++ [e], e⟩ ⟨ts ++ [e] ++ rest, last⟩ ⟨ts, rfl, by simp⟩
  rw [program_eq, hread _ _ (Nat.lt_succ_self _) (Nat.lt_succ_self _)] at hparallel
  simp only [parse?, hlast]
  generalize (program ((ts ++ [e] ++ rest).length + 1) : Rule _) ⟨ts ++ [e] ++ rest, last⟩ = reading
    at hparallel
  cases hparallel with
  | done h => rfl

/-- The block is not closed by the brace behind the end of the source. -/
theorem closed_behind_end :
    parse? ([⟨.symbol .leftBrace, "\x7b", 1⟩] ++ [⟨.endOfFile, "", 1⟩] ++
      [⟨.symbol .rightBrace, "\x7d", 2⟩, ⟨.endOfFile, "", 2⟩]) =
        some ⟨[], [⟨1, .finish, .expectBlockEnd⟩]⟩ := by
  obtain ⟨parsed, hparse, hbehind⟩ := nothing_is_read_behind_end [⟨.symbol .leftBrace, "\x7b", 1⟩]
    [⟨.symbol .rightBrace, "\x7d", 2⟩, ⟨.endOfFile, "", 2⟩] ⟨.endOfFile, "", 1⟩ rfl
  cases hparse
  exact hbehind

end Scriptlet
