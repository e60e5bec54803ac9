import Scriptlet.Parse
import Scriptlet.Proofs.Reading

/-!
# Parsing by index

A cursor holds the tokens that are left, so it cannot be in a wrong place.  A walk reads the same
grammar from a stream that it holds as a whole, with a position in it: it asks for tokens by index,
and comes to nothing if there is none.  It keeps a log of what it does.

* `Walk` : the grammar read by index, with a log of indices and positions;
* `walk` : parses a stream in this way;
* `Event.InBounds` : an index, a position or the way of a declaration is as it should be;
* `Walk.Lands` : a walk ends at a position, in bounds all the way;
* `Walk.lands_take`, `Walk.exists_lands_synchronize` : **taking a token and recovering do to the
  position what they do to a cursor.**
-/

namespace Scriptlet

/-- What a walk does to its stream. -/
inductive Event where
  /-- It asks for the token with an index. -/
  | reads (index : Nat)
  /-- It goes to a position. -/
  | moves (position : Nat)
  /-- It has read a declaration, or has dropped one and recovered. -/
  | declares (start finish : Nat)
deriving DecidableEq

/-- How a walk ends. -/
inductive Landing (α : Type) where
  /-- A value, with the position behind it. -/
  | done (value : α) (position : Nat) (errors : List SyntaxError)
  /-- The walk cannot go on from the position. -/
  | stuck (position : Nat) (errors : List SyntaxError)
  /-- The walk goes on without using up tokens. -/
  | endless
  /-- The stream has no token with an index that was asked for. -/
  | outOfBounds

/-- A walk from its start to its end. -/
structure Trace (α : Type) where
  /-- What was done, in order. -/
  log : List Event
  /-- How it ended. -/
  landing : Landing α

/-- A way through a stream of tokens, from any position. -/
def Walk (_tokens : List Token) (α : Type) := Nat → Trace α

variable {α β : Type}

/-- The same landing with errors put before its own. -/
def Landing.after (errors : List SyntaxError) : Landing α → Landing α
  | done value position more => done value position (errors ++ more)
  | stuck position more => stuck position (errors ++ more)
  | endless => endless
  | outOfBounds => outOfBounds

/-- The same trace with a log and errors put before its own. -/
def Trace.after (log : List Event) (errors : List SyntaxError) : Trace α → Trace α
  | ⟨more, landing⟩ => ⟨log ++ more, landing.after errors⟩

namespace Walk

variable {tokens : List Token}

/-- Stays where it is. -/
protected def pure (value : α) : Walk tokens α := fun i => ⟨[], .done value i []⟩

/-- Goes one way and then the one that its value asks for. -/
protected def bind (x : Walk tokens α) (f : α → Walk tokens β) : Walk tokens β := fun i =>
  match x i with
  | ⟨log, .done value j errors⟩ => (f value j).after log errors
  | ⟨log, .stuck j errors⟩ => ⟨log, .stuck j errors⟩
  | ⟨log, .endless⟩ => ⟨log, .endless⟩
  | ⟨log, .outOfBounds⟩ => ⟨log, .outOfBounds⟩

instance : Monad (Walk tokens) where
  pure := Walk.pure
  bind := Walk.bind

/-- The position. -/
def position : Walk tokens Nat := fun i => ⟨[], .done i i []⟩

/-- The token with an index. -/
def get (index : Nat) : Walk tokens Token := fun i =>
  match tokens[index]? with
  | some t => ⟨[.reads index], .done t i []⟩
  | none => ⟨[.reads index], .outOfBounds⟩

/-- Goes to a position. -/
def moveTo (j : Nat) : Walk tokens Unit := fun _ => ⟨[.moves j], .done () j []⟩

/-- Notes that the way from a position to the present one was a declaration. -/
def noteDeclaration (start : Nat) : Walk tokens Unit := fun i =>
  ⟨[.declares start i], .done () i []⟩

/-- The token at the position; behind the stream, its last token. -/
def current : Walk tokens Token := do
  let i ← position
  get (if i < tokens.length then i else tokens.length - 1)

/-- The token before the position; at the start, the first token. -/
def previous : Walk tokens Token := do
  let i ← position
  get (i - 1)

/-- Whether nothing is left to be used up. -/
def atEnd : Walk tokens Bool := do
  let i ← position
  if tokens.length ≤ i then
    return true
  else
    return (← current).kind.isEnd

/-- Goes past a token, if one is left, and gives the token before the position then. -/
def take : Walk tokens Token := do
  if ← atEnd then
    previous
  else
    let i ← position
    moveTo (i + 1)
    previous

/-- Goes on to the next boundary. -/
def skip : Nat → Walk tokens Unit
  | 0 => fun _ => ⟨[], .endless⟩
  | bound + 1 => do
    if ← atEnd then
      return
    let before ← previous
    if before.kind.isSymbol .semicolon then
      return
    let next ← current
    if Rule.startsStatement next.kind then
      return
    discard take
    skip bound

/-- Goes past at least one token, and on to the next boundary. -/
def synchronize : Walk tokens Unit := do
  discard take
  skip (tokens.length + 1)

/-- Goes some way, and ends without a value where it gets stuck. -/
def attempt (x : Walk tokens α) : Walk tokens (Option α) := fun i =>
  match x i with
  | ⟨log, .done value j errors⟩ => ⟨log, .done (some value) j errors⟩
  | ⟨log, .stuck j errors⟩ => ⟨log, .done none j errors⟩
  | ⟨log, .endless⟩ => ⟨log, .endless⟩
  | ⟨log, .outOfBounds⟩ => ⟨log, .outOfBounds⟩

instance : Reader (Walk tokens) where
  endless := fun _ => ⟨[], .endless⟩
  report e := fun i => ⟨[], .done () i [e]⟩
  fail complaint := do
    let next ← current
    fun i => ⟨[], .stuck i [SyntaxError.atToken next complaint]⟩
  peek := do
    let next ← current
    return next.kind
  stopped stop := do
    if ← atEnd then
      return true
    else
      let next ← current
      return stop next.kind
  advance := take
  recover x := do
    let start ← position
    let value ← attempt x
    if value.isNone then
      synchronize
    noteDeclaration start
    return value

end Walk

/-- Parses a stream of tokens by index. -/
def walk (tokens : List Token) : Trace (List Stmt) :=
  if tokens.isEmpty then ⟨[], .done [] 0 []⟩
  else (Rule.program (tokens.length + 1) : Walk tokens _) 0

namespace Walk

/-- The index of the first end of the source; without one, the length of the stream. -/
def limit (tokens : List Token) : Nat := tokens.findIdx fun t => t.kind.isEnd

end Walk

/-- What may happen on a walk: it asks for tokens that there are, does not go past the end of the
source, and leaves no declaration where it came to it. -/
def Event.InBounds (tokens : List Token) : Event → Prop
  | reads index => index < tokens.length
  | moves position => position ≤ Walk.limit tokens
  | declares start finish => start < finish

/-! ### Cursors with nothing left -/

namespace Rule

variable {c : Cursor}

theorem boundary_of_atEnd (h : c.atEnd = true) (t : Token) : boundary t c.rest = c.rest := by
  obtain ⟨rest, last⟩ := c
  cases rest with
  | nil => rfl
  | cons u rest =>
    replace h : u.kind.isEnd = true := h
    simp [boundary, h]

theorem resume_of_atEnd (h : c.atEnd = true) : resume c = c := by
  obtain ⟨rest, last⟩ := c
  cases rest with
  | nil => rfl
  | cons u rest =>
    replace h : u.kind.isEnd = true := h
    simp [resume, h]

end Rule

namespace Walk

variable {tokens : List Token} {last : Token} {i j k : Nat}

/-- A walk from a position ends with a value at another one, in bounds all the way. -/
def Lands (i : Nat) (x : Walk tokens α) (a : α) (j : Nat) (errors : List SyntaxError) : Prop :=
  ∃ log, x i = ⟨log, .done a j errors⟩ ∧ ∀ e ∈ log, e.InBounds tokens

/-- The cursor at a position. -/
def cursorAt (tokens : List Token) (last : Token) (i : Nat) : Cursor := ⟨tokens.drop i, last⟩

theorem bind_apply (x : Walk tokens α) (f : α → Walk tokens β) (i : Nat) :
    (x >>= f) i = match x i with
      | ⟨log, .done value j errors⟩ => (f value j).after log errors
      | ⟨log, .stuck j errors⟩ => ⟨log, .stuck j errors⟩
      | ⟨log, .endless⟩ => ⟨log, .endless⟩
      | ⟨log, .outOfBounds⟩ => ⟨log, .outOfBounds⟩ := rfl

theorem bind_of_done {x : Walk tokens α} {f : α → Walk tokens β} {a : α} {log : List Event}
    {errors : List SyntaxError} (h : x i = ⟨log, .done a j errors⟩) :
    (x >>= f) i = (f a j).after log errors := by
  rw [bind_apply, h]

/-! ### Landing -/

theorem Lands.bind {x : Walk tokens α} {f : α → Walk tokens β} {a : α} {b : β}
    {errors more : List SyntaxError} (hx : Lands i x a j errors) (hf : Lands j (f a) b k more) :
    Lands i (x >>= f) b k (errors ++ more) := by
  obtain ⟨log, hlog, hbounds⟩ := hx
  obtain ⟨log', hlog', hbounds'⟩ := hf
  refine ⟨log ++ log', ?_, List.forall_mem_append.2 ⟨hbounds, hbounds'⟩⟩
  rw [bind_of_done hlog, hlog']
  rfl

theorem lands_pure (a : α) : Lands i (pure a : Walk tokens α) a i [] := ⟨[], rfl, by simp⟩

theorem lands_position : Lands i (position : Walk tokens Nat) i i [] := ⟨[], rfl, by simp⟩

theorem lands_moveTo (h : j ≤ limit tokens) : Lands i (moveTo j : Walk tokens Unit) () j [] :=
  ⟨[.moves j], rfl, by simpa [Event.InBounds] using h⟩

theorem lands_noteDeclaration (h : j < i) :
    Lands i (noteDeclaration j : Walk tokens Unit) () i [] :=
  ⟨[.declares j i], rfl, by simpa [Event.InBounds] using h⟩

theorem lands_get {index : Nat} {t : Token} (h : tokens[index]? = some t) :
    Lands i (get index : Walk tokens Token) t i [] := by
  obtain ⟨hlt, -⟩ := List.getElem?_eq_some_iff.1 h
  refine ⟨[.reads index], ?_, by simpa [Event.InBounds] using hlt⟩
  rw [get, h]

theorem Lands.discard {x : Walk tokens α} {a : α} {errors : List SyntaxError}
    (hx : Lands i x a j errors) : Lands i (discard x) ⟨⟩ j errors := by
  have h := hx.bind (f := fun _ => pure PUnit.unit) (lands_pure _)
  rwa [List.append_nil] at h

/-! ### Positions and cursors -/

theorem limit_le_length (tokens : List Token) : limit tokens ≤ tokens.length :=
  List.findIdx_le_length

/-- Before the limit there is a token, and it is no end of the source. -/
theorem exists_of_lt_limit (h : i < limit tokens) :
    ∃ t, tokens[i]? = some t ∧ t.kind.isEnd = false ∧ tokens.drop i = t :: tokens.drop (i + 1) := by
  have hlt : i < tokens.length := Nat.lt_of_lt_of_le h (limit_le_length tokens)
  refine ⟨tokens[i], List.getElem?_eq_getElem hlt, ?_, List.drop_eq_getElem_cons hlt⟩
  simpa using List.not_of_lt_findIdx h

theorem cursorAt_next (h : i < limit tokens) :
    (cursorAt tokens last i).next = cursorAt tokens last (i + 1) := by
  obtain ⟨t, -, hend, hdrop⟩ := exists_of_lt_limit h
  rw [cursorAt, hdrop]
  exact Cursor.next_cons _ _ hend

/-- At the limit nothing is left to be used up. -/
theorem cursorAt_limit_atEnd : (cursorAt tokens last (limit tokens)).atEnd = true := by
  by_cases h : limit tokens < tokens.length
  · have hend := List.findIdx_getElem (w := h)
    rw [cursorAt, List.drop_eq_getElem_cons h]
    exact hend
  · rw [cursorAt, List.drop_eq_nil_of_le (by omega)]
    rfl

theorem cursorAt_atEnd (hi : i ≤ limit tokens) :
    (cursorAt tokens last i).atEnd = decide (i = limit tokens) := by
  by_cases h : i = limit tokens
  · rw [h, cursorAt_limit_atEnd]
    simp
  · obtain ⟨t, -, hend, hdrop⟩ := exists_of_lt_limit (show i < limit tokens by omega)
    rw [cursorAt, hdrop]
    simpa [Cursor.atEnd, h] using hend

/-! ### Tokens by index -/

theorem lands_previous {t : Token} (h : tokens[i]? = some t) :
    Lands (i + 1) (previous : Walk tokens Token) t (i + 1) [] :=
  lands_position.bind (lands_get h)

section Stream

variable (hlast : tokens.getLast? = some last)
include hlast

theorem length_pos : 0 < tokens.length := by
  cases tokens with
  | nil => cases hlast
  | cons t rest => simp

theorem getElem?_current :
    tokens[if i < tokens.length then i else tokens.length - 1]? =
      some (cursorAt tokens last i).peek := by
  split
  · rename_i h
    rw [List.getElem?_eq_getElem h, cursorAt, List.drop_eq_getElem_cons h]
    rfl
  · rename_i h
    rw [cursorAt, List.drop_eq_nil_of_le (by omega), ← List.getLast?_eq_getElem?, hlast]
    rfl

theorem lands_current : Lands i (current : Walk tokens Token) (cursorAt tokens last i).peek i [] :=
  lands_position.bind (lands_get (getElem?_current hlast))

theorem lands_atEnd : Lands i (atEnd : Walk tokens Bool) (cursorAt tokens last i).atEnd i [] := by
  refine lands_position.bind ?_
  split
  · rename_i h
    rw [cursorAt, List.drop_eq_nil_of_le h]
    exact lands_pure true
  · rename_i h
    have hatEnd : (cursorAt tokens last i).atEnd = (cursorAt tokens last i).peek.kind.isEnd := by
      rw [cursorAt, List.drop_eq_getElem_cons (by omega)]
      rfl
    rw [hatEnd]
    exact (lands_current hlast).bind (lands_pure _)

theorem lands_atEnd_of_lt (hi : i < limit tokens) :
    Lands i (atEnd : Walk tokens Bool) false i [] := by
  have h := lands_atEnd hlast (i := i)
  rwa [cursorAt_atEnd (by omega), decide_eq_false (by omega)] at h

theorem lands_atEnd_limit :
    Lands (limit tokens) (atEnd : Walk tokens Bool) true (limit tokens) [] := by
  have h := lands_atEnd hlast (i := limit tokens)
  rwa [cursorAt_limit_atEnd] at h

theorem exists_lands_previous (hi : i ≤ limit tokens) :
    ∃ t, Lands i (previous : Walk tokens Token) t i [] := by
  have hlt : i - 1 < tokens.length := by
    have := limit_le_length tokens
    have := length_pos hlast
    omega
  exact ⟨_, lands_position.bind (lands_get (List.getElem?_eq_getElem hlt))⟩

/-- Before the limit, a token is taken as from a cursor. -/
theorem lands_take_of_lt (hi : i < limit tokens) :
    Lands i (take : Walk tokens Token) (cursorAt tokens last i).peek (i + 1) [] := by
  obtain ⟨t, ht, -, hdrop⟩ := exists_of_lt_limit hi
  have hpeek : (cursorAt tokens last i).peek = t := by rw [cursorAt, hdrop]; rfl
  rw [hpeek]
  exact (lands_atEnd_of_lt hlast hi).bind
    (lands_position.bind ((lands_moveTo hi).bind (lands_previous ht)))

/-- At the limit there is no way on. -/
theorem exists_lands_take_limit :
    ∃ t, Lands (limit tokens) (take : Walk tokens Token) t (limit tokens) [] := by
  obtain ⟨t, ht⟩ := exists_lands_previous hlast (Nat.le_refl (limit tokens))
  exact ⟨t, (lands_atEnd_limit hlast).bind ht⟩

/-- **A token that is no end of the source is taken as from a cursor**: the position goes on if it
can, and otherwise the last token is taken once more. -/
theorem lands_take (hi : i ≤ limit tokens)
    (hend : (cursorAt tokens last i).peek.kind.isEnd = false) :
    Lands i (take : Walk tokens Token) (cursorAt tokens last i).peek (min (i + 1) (limit tokens)) []
      ∧ cursorAt tokens last (min (i + 1) (limit tokens)) = (cursorAt tokens last i).next := by
  rcases Nat.lt_or_eq_of_le hi with hlt | rfl
  · rw [Nat.min_eq_left hlt, cursorAt_next hlt]
    exact ⟨lands_take_of_lt hlast hlt, rfl⟩
  · -- the token is seen behind the stream, since one inside it would be an end of the source
    have hdrop : tokens.drop (limit tokens) = [] := by
      have hatEnd : (cursorAt tokens last (limit tokens)).atEnd = true := cursorAt_limit_atEnd
      cases h : tokens.drop (limit tokens) with
      | nil => rfl
      | cons t rest =>
        rw [cursorAt, h] at hatEnd hend
        exact absurd (hatEnd.symm.trans hend) (by decide)
    have hlimit : limit tokens = tokens.length :=
      Nat.le_antisymm (limit_le_length tokens) (List.drop_eq_nil_iff.1 hdrop)
    have hprevious : tokens[limit tokens - 1]? = some last := by
      rw [hlimit, ← List.getLast?_eq_getElem?, hlast]
    rw [Nat.min_eq_right (Nat.le_succ _), Cursor.peek_of_rest_nil hdrop,
      Cursor.next_of_rest_nil hdrop]
    exact ⟨(lands_atEnd_limit hlast).bind (lands_position.bind (lands_get hprevious)), rfl⟩

/-! ### Recovery -/

/-- Behind a token, the way leads to the boundary that a cursor finds. -/
theorem exists_lands_skip : ∀ bound i t, tokens[i]? = some t → i + 1 ≤ limit tokens →
    limit tokens - (i + 1) < bound → ∃ j, Lands (i + 1) (skip bound : Walk tokens Unit) () j [] ∧
      i + 1 ≤ j ∧ j ≤ limit tokens ∧ tokens.drop j = Rule.boundary t (tokens.drop (i + 1)) := by
  intro bound
  induction bound with
  | zero => intro i t _ _ hbound; omega
  | succ bound ih =>
    intro i t ht hi hbound
    rcases Nat.lt_or_eq_of_le hi with hlt | hover
    swap
    · -- nothing is left
      rw [hover]
      refine ⟨limit tokens, (lands_atEnd_limit hlast).bind (lands_pure ()), Nat.le_refl _,
        Nat.le_refl _, ?_⟩
      exact (Rule.boundary_of_atEnd (c := cursorAt tokens last _) cursorAt_limit_atEnd t).symm
    have hatEnd := lands_atEnd_of_lt hlast hlt
    obtain ⟨u, hu, hend, hdrop⟩ := exists_of_lt_limit hlt
    have hcurrent : Lands (i + 1) (current : Walk tokens Token) u (i + 1) [] := by
      have h := lands_current hlast (i := i + 1)
      rwa [cursorAt, hdrop] at h
    rw [hdrop, Rule.boundary, hend, Bool.false_or]
    -- otherwise the token before the position and the one at it tell whether to stop
    by_cases hsemi : t.kind.isSymbol .semicolon = true
    · refine ⟨i + 1, ?_, Nat.le_refl _, hi, ?_⟩
      · refine hatEnd.bind ((lands_previous ht).bind ?_)
        rw [if_pos hsemi]
        exact lands_pure ()
      · rw [hsemi, Bool.true_or, if_pos rfl, hdrop]
    by_cases hstart : Rule.startsStatement u.kind = true
    · refine ⟨i + 1, ?_, Nat.le_refl _, hi, ?_⟩
      · refine hatEnd.bind ((lands_previous ht).bind ?_)
        rw [if_neg hsemi]
        refine hcurrent.bind ?_
        rw [if_pos hstart]
        exact lands_pure ()
      · rw [hstart, Bool.or_true, if_pos rfl, hdrop]
    · obtain ⟨j, hj, hle, hlimit, hboundary⟩ := ih (i + 1) u hu hlt (by omega)
      refine ⟨j, ?_, by omega, hlimit, ?_⟩
      · refine hatEnd.bind ((lands_previous ht).bind ?_)
        rw [if_neg hsemi]
        refine hcurrent.bind ?_
        rw [if_neg hstart]
        exact (lands_take_of_lt hlast hlt).discard.bind hj
      · rw [if_neg (by simp [hsemi, hstart]), hboundary]

/-- **Recovery leads to where a cursor takes up again**, and on if anything is left. -/
theorem exists_lands_synchronize (hi : i ≤ limit tokens) :
    ∃ j, Lands i (synchronize : Walk tokens Unit) () j [] ∧ min (i + 1) (limit tokens) ≤ j ∧
      j ≤ limit tokens ∧ cursorAt tokens last j = Rule.resume (cursorAt tokens last i) := by
  rcases Nat.lt_or_eq_of_le hi with hlt | rfl
  · obtain ⟨t, ht, hend, hdrop⟩ := exists_of_lt_limit hlt
    have hbound : limit tokens - (i + 1) < tokens.length + 1 := by
      have := limit_le_length tokens
      omega
    obtain ⟨j, hj, hle, hlimit, hboundary⟩ := exists_lands_skip hlast _ i t ht hlt hbound
    refine ⟨j, (lands_take_of_lt hlast hlt).discard.bind hj, by omega, hlimit, ?_⟩
    rw [cursorAt, cursorAt, hdrop, hboundary]
    simp [Rule.resume, hend]
  · obtain ⟨t, ht⟩ := exists_lands_take_limit hlast
    refine ⟨limit tokens, ht.discard.bind ((lands_atEnd_limit hlast).bind (lands_pure ())),
      by omega, Nat.le_refl _, ?_⟩
    rw [Rule.resume_of_atEnd cursorAt_limit_atEnd]

end Stream

end Walk

end Scriptlet
