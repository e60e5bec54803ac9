import Scriptlet.Proofs.Progress
import Scriptlet.Proofs.Walk

/-!
# Parsing stays in bounds

Read by index, the grammar gives what it gives when read from a cursor, and it does so in bounds: no
token is asked for that the stream does not have, the position does not get past the end of the
source, and every declaration moves it on.  That holds of each rule wherever it is started, so it is
shown rule by rule, as termination is.

* `Walk.Follows` : from a position, a walk does what a rule does from the cursor there, in bounds all
  the way, with `Walk.Follows.bind`, by which this passes from the parts of a rule to the whole;
* `Walk.Steps` : it does so from every position, and uses up a token if one is left;
* `Walk.expression_steps`, `Walk.statement_steps` and the like : so do the rules of the grammar;
* `parsing_ends_in_bounds` : **parsing ends and stays in bounds.**
-/

namespace Scriptlet

namespace Walk

open Rule

variable {α β : Type} {tokens : List Token} {last : Token} {i j k lower : Nat}

/-- A walk that started at a position ends as a reading does, at a position for the cursor of the
reading.  If it has a value, the position is not below a certain one. -/
inductive Tracks (tokens : List Token) (last : Token) (start lower : Nat) :
    Landing α → Reading α → Prop
  | done {a : α} {i : Nat} {errors : List SyntaxError} (hstart : start ≤ i) (hlower : lower ≤ i)
      (hlimit : i ≤ limit tokens) : Tracks tokens last start lower (.done a i errors)
        (.done a (cursorAt tokens last i) errors)
  | stuck {i : Nat} {errors : List SyntaxError} (hstart : start ≤ i) (hlimit : i ≤ limit tokens) :
      Tracks tokens last start lower (.stuck i errors) (.stuck (cursorAt tokens last i) errors)
  | endless : Tracks tokens last start lower .endless .endless

/-- From a position, a walk stays in bounds and ends as a rule does from the cursor there. -/
structure Follows (last : Token) (i lower : Nat) (x : Walk tokens α) (y : Rule α) : Prop where
  inBounds : ∀ e ∈ (x i).log, e.InBounds tokens
  tracks : Tracks tokens last i lower (x i).landing (y (cursorAt tokens last i))

/-- Everywhere in the stream a walk follows a rule, and uses up a token if one is left. -/
def Steps (last : Token) (x : Walk tokens α) (y : Rule α) : Prop :=
  ∀ i ≤ limit tokens, Follows last i (min (i + 1) (limit tokens)) x y

/-! ### Following -/

theorem Tracks.after {landing : Landing α} {reading : Reading α} {start : Nat}
    (h : Tracks tokens last start lower landing reading) (hi : i ≤ start)
    (errors : List SyntaxError) :
    Tracks tokens last i lower (landing.after errors) (reading.after errors) := by
  cases h with
  | done hstart hlower hlimit => exact .done (Nat.le_trans hi hstart) hlower hlimit
  | stuck hstart hlimit => exact .stuck (Nat.le_trans hi hstart) hlimit
  | endless => exact .endless

theorem Tracks.mono {landing : Landing α} {reading : Reading α} {start : Nat}
    (h : Tracks tokens last start lower landing reading) (hk : k ≤ lower) :
    Tracks tokens last start k landing reading := by
  cases h with
  | done hstart hlower hlimit => exact .done hstart (Nat.le_trans hk hlower) hlimit
  | stuck hstart hlimit => exact .stuck hstart hlimit
  | endless => exact .endless

namespace Follows

variable {x : Walk tokens α} {y : Rule α} {f : α → Walk tokens β} {g : α → Rule β}

theorem mono (h : Follows last i lower x y) (hk : k ≤ lower) : Follows last i k x y :=
  ⟨h.inBounds, h.tracks.mono hk⟩

/-- A walk that lands where a rule does. -/
theorem of_lands {a : α} {errors : List SyntaxError} (hx : Lands i x a j errors)
    (hy : y (cursorAt tokens last i) = .done a (cursorAt tokens last j) errors) (hij : i ≤ j)
    (hlower : lower ≤ j) (hj : j ≤ limit tokens) : Follows last i lower x y := by
  obtain ⟨log, hlog, hbounds⟩ := hx
  refine ⟨by rwa [hlog], ?_⟩
  rw [hlog, hy]
  exact .done hij hlower hj

/-- After a walk that lands somewhere, what is done from there has to be followed. -/
theorem of_lands_bind {z w : Rule β} {a : α} {errors : List SyntaxError}
    (hx : Lands i x a j errors)
    (hz : z (cursorAt tokens last i) = (w (cursorAt tokens last j)).after errors) (hij : i ≤ j)
    (hf : Follows last j lower (f a) w) : Follows last i lower (x >>= f) z := by
  obtain ⟨log, hlog, hbounds⟩ := hx
  constructor
  · rw [Walk.bind_of_done hlog]
    exact List.forall_mem_append.2 ⟨hbounds, hf.inBounds⟩
  · rw [Walk.bind_of_done hlog, hz]
    exact hf.tracks.after hij errors

/-- **A walk follows a rule if its parts follow the parts of the rule.** -/
theorem bind (hx : Follows last i k x y)
    (hf : ∀ a j, i ≤ j → k ≤ j → j ≤ limit tokens → Follows last j lower (f a) (g a)) :
    Follows last i lower (x >>= f) (y >>= g) := by
  obtain ⟨hbounds, htracks⟩ := hx
  generalize hy : y (cursorAt tokens last i) = reading at htracks
  generalize hxi : x i = trace at hbounds htracks
  obtain ⟨log, landing⟩ := trace
  cases htracks with
  | @done a j errors hstart hlower hlimit =>
    refine of_lands_bind ⟨log, hxi, hbounds⟩ ?_ hstart (hf a j hstart hlower hlimit)
    rw [Rule.bind_apply, hy]
  | stuck hstart hlimit =>
    constructor
    · rw [Walk.bind_apply, hxi]
      exact hbounds
    · rw [Walk.bind_apply, Rule.bind_apply, hxi, hy]
      exact .stuck hstart hlimit
  | endless =>
    constructor
    · rw [Walk.bind_apply, hxi]
      exact hbounds
    · rw [Walk.bind_apply, Rule.bind_apply, hxi, hy]
      exact .endless

theorem pure (a : α) (hlower : lower ≤ i) (hi : i ≤ limit tokens) :
    Follows last i lower (Pure.pure a : Walk tokens α) (Pure.pure a) :=
  .of_lands (lands_pure a) rfl (Nat.le_refl i) hlower hi

theorem map (hx : Follows last i lower x y) (h : α → β) :
    Follows last i lower (h <$> x) (h <$> y) :=
  hx.bind fun a _ _ hlower hj => .pure (h a) hlower hj

theorem discard (hx : Follows last i lower x y) :
    Follows last i lower (discard x) (discard y) := hx.map _

theorem ite {b : Bool} {x' : Walk tokens α} {y' : Rule α} (hx : Follows last i lower x y)
    (hx' : Follows last i lower x' y') :
    Follows last i lower (if b then x else x') (if b then y else y') := by
  cases b with
  | false => exact hx'
  | true => exact hx

/-- One of two parts, and what comes behind them. -/
theorem ite_bind {b : Bool} {x' : Walk tokens α} {y' : Rule α} {k' : Nat}
    (hx : Follows last i k x y) (hx' : Follows last i k' x' y')
    (hf : ∀ a j, i ≤ j → j ≤ limit tokens → Follows last j lower (f a) (g a)) :
    Follows last i lower (if b then x >>= f else x' >>= f) (if b then y >>= g else y' >>= g) :=
  .ite (hx.bind fun a j hij _ hj => hf a j hij hj) (hx'.bind fun a j hij _ hj => hf a j hij hj)

end Follows

theorem Steps.map {x : Walk tokens α} {y : Rule α} (hx : Steps last x y) (h : α → β) :
    Steps last (h <$> x) (h <$> y) :=
  fun i hi => (hx i hi).map h

/-! ### Steps of the grammar -/

theorem follows_endless :
    Follows last i lower (endless : Walk tokens α) (endless : Rule α) :=
  ⟨by simp [endless], .endless⟩

theorem follows_report (e : SyntaxError) (hlower : lower ≤ i) (hi : i ≤ limit tokens) :
    Follows last i lower (report e : Walk tokens Unit) (report e) :=
  .of_lands ⟨[], rfl, by simp⟩ rfl (Nat.le_refl i) hlower hi

theorem isEnd_of_wanted {wanted : Kind → Bool} (hwanted : wanted .endOfFile = false) {kind : Kind}
    (h : wanted kind = true) : kind.isEnd = false := by
  cases kind with
  | endOfFile => rw [hwanted] at h; cases h
  | _ => rfl

section Stream

variable (hlast : tokens.getLast? = some last)
include hlast

theorem follows_fail (complaint : Complaint) (hi : i ≤ limit tokens) :
    Follows last i lower (fail complaint : Walk tokens α) (fail complaint) := by
  refine .of_lands_bind (lands_current hlast) (w := fail complaint) (by simp) (Nat.le_refl i) ?_
  exact ⟨by simp, .stuck (Nat.le_refl i) hi⟩

/-- What follows a look at the next token. -/
theorem Follows.peek_bind {f : Kind → Walk tokens α} {g : Kind → Rule α}
    (h : ∀ kind, (cursorAt tokens last i).peek.kind = kind →
      Follows last i lower (f kind) (g kind)) :
    Follows last i lower (peek >>= f) (peek >>= g) := by
  have hpeek : Lands i (peek : Walk tokens Kind) (cursorAt tokens last i).peek.kind i [] :=
    (lands_current hlast).bind (lands_pure _)
  exact .of_lands_bind hpeek (by simp) (Nat.le_refl i) (h _ rfl)

/-- What follows the question whether to stop: where the answer is no, something is left. -/
theorem Follows.stopped_bind {stop : Kind → Bool} {f : Bool → Walk tokens α} {g : Bool → Rule α}
    (hi : i ≤ limit tokens) (hstop : Follows last i lower (f true) (g true))
    (hgo : i < limit tokens → Follows last i lower (f false) (g false)) :
    Follows last i lower (stopped stop >>= f) (stopped stop >>= g) := by
  have hatEnd := lands_atEnd hlast (i := i)
  have hcurrent := lands_current hlast (i := i)
  have hcursor : (cursorAt tokens last i).atEnd = decide (i = limit tokens) := cursorAt_atEnd hi
  generalize hc : cursorAt tokens last i = c at hatEnd hcurrent hcursor
  have hstopped : Lands i (stopped stop : Walk tokens Bool) (c.atEnd || stop c.peek.kind) i [] := by
    refine hatEnd.bind ?_
    cases c.atEnd with
    | true => exact lands_pure true
    | false => exact hcurrent.bind (lands_pure _)
  refine .of_lands_bind hstopped (w := g (c.atEnd || stop c.peek.kind)) ?_ (Nat.le_refl i) ?_
  · rw [Rule.stopped_bind, hc, Reading.after_nil]
  · cases h : (c.atEnd || stop c.peek.kind) with
    | true => exact hstop
    | false =>
      have hne : ¬ i = limit tokens := by
        rw [hcursor] at h
        simp_all
      exact hgo (by omega)

theorem follows_advance {kind : Kind} (hk : (cursorAt tokens last i).peek.kind = kind)
    (hend : kind.isEnd = false) (hi : i ≤ limit tokens) :
    Follows last i (min (i + 1) (limit tokens)) (advance : Walk tokens Token) advance := by
  obtain ⟨htake, hnext⟩ := lands_take hlast hi (hk ▸ hend)
  exact .of_lands htake (by rw [hnext, advance_apply]) (by omega) (Nat.le_refl _) (by omega)

/-- A token that is no end of the source, and a rule behind it. -/
theorem Steps.advance_bind {x : Walk tokens α} {y : Rule α} (hx : Steps last x y) {kind : Kind}
    (hk : (cursorAt tokens last i).peek.kind = kind) (hend : kind.isEnd = false)
    (hi : i ≤ limit tokens) : Follows last i (min (i + 1) (limit tokens))
      (discard advance >>= fun _ => x) (discard advance >>= fun _ => y) := by
  refine (follows_advance hlast hk hend hi).discard.bind fun _ j _ hlower hj => ?_
  exact (hx j hj).mono (by omega)

theorem expect_steps {wanted : Kind → Bool} (hwanted : wanted .endOfFile = false)
    (complaint : Complaint) :
    Steps last (expect wanted complaint : Walk tokens Token) (expect wanted complaint) := by
  intro i hi
  refine .peek_bind hlast fun kind hk => ?_
  split
  · rename_i hw
    exact follows_advance hlast hk (isEnd_of_wanted hwanted hw) hi
  · exact follows_fail hlast complaint hi

theorem follows_accept {wanted : Kind → Bool} (hwanted : wanted .endOfFile = false)
    (hi : i ≤ limit tokens) :
    Follows last i i (accept wanted : Walk tokens Bool) (accept wanted) := by
  refine .peek_bind hlast fun kind hk => ?_
  split
  · rename_i hw
    refine (follows_advance hlast hk (isEnd_of_wanted hwanted hw) hi).discard.bind ?_
    exact fun _ j hij _ hj => .pure true hij hj
  · exact .pure false (Nat.le_refl i) hi

/-- Where anything is left, recovery moves on, whether the rule gets stuck or not. -/
theorem follows_recover {x : Walk tokens α} {y : Rule α} (hi : i < limit tokens)
    (hx : Follows last i (i + 1) x y) : Follows last i (i + 1) (recover x) (recover y) := by
  obtain ⟨hbounds, htracks⟩ := hx
  generalize hy : y (cursorAt tokens last i) = reading at htracks
  generalize hxi : x i = trace at hbounds htracks
  obtain ⟨log, landing⟩ := trace
  -- a declaration that is read has moved on itself, one that is dropped is moved past by recovery
  cases htracks with
  | @done a j errors hstart hlower hlimit =>
    have hattempt : Lands i (attempt x) (some a) j errors := ⟨log, by rw [attempt, hxi], hbounds⟩
    have hnote : Lands j (noteDeclaration i : Walk tokens Unit) () j [] :=
      lands_noteDeclaration (Nat.lt_of_succ_le hlower)
    have hrecover : Lands i (recover x) (some a) j (errors ++ []) :=
      lands_position.bind (hattempt.bind (hnote.bind (lands_pure _)))
    refine .of_lands hrecover ?_ hstart hlower hlimit
    rw [recover_apply, hy, List.append_nil]
  | @stuck j errors hstart hlimit =>
    obtain ⟨k, hsync, hjk, hk, hresume⟩ := exists_lands_synchronize hlast hlimit
    have hik : i < k := by omega
    have hattempt : Lands i (attempt x) none j errors := ⟨log, by rw [attempt, hxi], hbounds⟩
    have hnote : Lands k (noteDeclaration i : Walk tokens Unit) () k [] :=
      lands_noteDeclaration hik
    have hrecover : Lands i (recover x) none k (errors ++ []) :=
      lands_position.bind (hattempt.bind (hsync.bind (hnote.bind (lands_pure _))))
    refine .of_lands hrecover ?_ (Nat.le_of_lt hik) hik hk
    rw [recover_apply, hy, hresume, List.append_nil]
  | endless =>
    have hattempt : attempt x i = ⟨log, .endless⟩ := by rw [attempt, hxi]
    have hrecover : recover x i = (⟨log, .endless⟩ : Trace (Option α)) := by
      change (position >>= fun start => attempt x >>= _) i = _
      rw [Walk.bind_of_done rfl, Walk.bind_apply, hattempt]
      rfl
    refine ⟨?_, ?_⟩
    · rwa [hrecover]
    · rw [hrecover, recover_apply, hy]
      exact .endless

/-- An expected token that ends a rule. -/
theorem follows_close {wanted : Kind → Bool} (hwanted : wanted .endOfFile = false)
    (complaint : Complaint) (a : α) (hlower : lower ≤ i) (hi : i ≤ limit tokens) :
    Follows last i lower (discard (expect wanted complaint) >>= fun _ => pure a : Walk tokens α)
      (discard (expect wanted complaint) >>= fun _ => pure a) :=
  (expect_steps hlast hwanted complaint i hi).discard.bind fun _ _ hij _ hj =>
    .pure a (Nat.le_trans hlower hij) hj

/-! ### Expressions -/

variable {e : Walk tokens Expr} {e' : Rule Expr} {s : Walk tokens Stmt} {s' : Rule Stmt}

theorem primary_steps (he : Steps last e e') : Steps last (primary e) (primary e') := by
  intro i hi
  refine .peek_bind hlast fun kind hk => ?_
  split
  · rename_i v hv
    have hend := Kind.isEnd_of_startsExpression (startsExpression_of_literal hv)
    exact (follows_advance hlast hk hend hi).discard.bind fun _ j _ hlower hj => .pure _ hlower hj
  · split
    · exact (follows_advance hlast hk rfl hi).bind fun _ j _ hlower hj => .pure _ hlower hj
    · refine (follows_advance hlast hk rfl hi).discard.bind fun _ j _ hlower hj => ?_
      refine (he j hj).bind fun inner k hjk _ hk => ?_
      exact follows_close hlast rfl _ _ (Nat.le_trans hlower hjk) hk
    · exact follows_fail hlast _ hi

theorem unary_steps (he : Steps last e e') :
    ∀ bound, Steps last (unary e bound) (unary e' bound) := by
  intro bound
  induction bound with
  | zero => exact fun i hi => follows_endless
  | succ bound ih =>
    intro i hi
    refine .peek_bind hlast fun kind hk => ?_
    split
    · refine (follows_advance hlast hk rfl hi).bind fun operator j _ hlower hj => ?_
      exact (ih j hj).bind fun operand k hjk _ hk => .pure _ (Nat.le_trans hlower hjk) hk
    · refine (follows_advance hlast hk rfl hi).bind fun operator j _ hlower hj => ?_
      exact (ih j hj).bind fun operand k hjk _ hk => .pure _ (Nat.le_trans hlower hjk) hk
    · exact primary_steps hlast he i hi

theorem follows_chain (he : Steps last e e') (level : Level) : ∀ bound left i, i ≤ limit tokens →
    Follows last i i (chain level e bound left) (chain level e' bound left) := by
  intro bound
  induction bound with
  | zero => exact fun left i hi => follows_endless
  | succ bound ih =>
    intro left i hi
    refine .peek_bind hlast fun kind hk => ?_
    split
    · rename_i hop
      refine (follows_advance hlast hk (isEnd_of_has hop) hi).bind fun operator j hij _ hj => ?_
      refine (he j hj).bind fun right k hjk _ hk => ?_
      exact (ih _ k hk).mono (Nat.le_trans hij hjk)
    · exact .pure left (Nat.le_refl i) hi

theorem operand_steps (he : Steps last e e') (bound : Nat) :
    ∀ levels, Steps last (operand e bound levels) (operand e' bound levels)
  | [] => he
  | level :: tighter => by
    intro i hi
    have ih := operand_steps he bound tighter
    refine (ih i hi).bind fun left j _ hlower hj => ?_
    exact (follows_chain hlast ih level bound left j hj).mono hlower

omit hlast in
theorem follows_assignTo (target value : Expr) (equals : Token) (hlower : lower ≤ i)
    (hi : i ≤ limit tokens) : Follows last i lower
      (assignTo target equals value : Walk tokens Expr) (assignTo target equals value) := by
  cases target with
  | reference name => exact .pure _ hlower hi
  | _ => exact (follows_report _ hlower hi).bind fun _ j _ hlower hj => .pure value hlower hj

theorem expression_steps :
    ∀ bound, Steps last (expression bound : Walk tokens Expr) (expression bound) := by
  intro bound
  induction bound with
  | zero => exact fun i hi => follows_endless
  | succ bound ih =>
    intro i hi
    have hunary := unary_steps hlast ih (bound + 1)
    refine (operand_steps hlast hunary _ _ i hi).bind fun target j _ hlower hj => ?_
    refine .peek_bind hlast fun kind hk => ?_
    split
    · rename_i heq
      have hend := Kind.isEnd_of_isSymbol heq
      refine (follows_advance hlast hk hend hj).bind fun equals k hjk _ hk => ?_
      exact (ih k hk).bind fun value l hkl _ hl => follows_assignTo _ _ _ (by omega) hl
    · exact .pure target hlower hj

/-! ### Statements -/

theorem varDeclaration_steps (he : Steps last e e') :
    Steps last (varDeclaration e) (varDeclaration e') := by
  intro i hi
  refine (expect_steps hlast rfl _ i hi).bind fun name j _ hlower hj => ?_
  refine (follows_accept hlast rfl hj).bind fun given k hjk _ hk => ?_
  refine .ite_bind (he.map some k hk) (.pure none (Nat.le_refl k) hk) fun init l hkl hl => ?_
  exact follows_close hlast rfl _ _ (by omega) hl

theorem expressionStatement_steps (he : Steps last e e') :
    Steps last (expressionStatement e) (expressionStatement e') := by
  intro i hi
  exact (he i hi).bind fun value j _ hlower hj => follows_close hlast rfl _ _ hlower hj

theorem printStatement_steps (he : Steps last e e') :
    Steps last (printStatement e) (printStatement e') := by
  intro i hi
  exact (he i hi).bind fun value j _ hlower hj => follows_close hlast rfl _ _ hlower hj

theorem forInit_steps (he : Steps last e e') : Steps last (forInit e) (forInit e') := by
  intro i hi
  refine .peek_bind hlast fun kind hk => ?_
  split
  · exact (follows_advance hlast hk rfl hi).discard.bind fun _ j _ hlower hj => .pure none hlower hj
  · exact ((varDeclaration_steps hlast he).map some).advance_bind hlast hk rfl hi
  · exact (expressionStatement_steps hlast he).map some i hi

theorem forStatement_steps (he : Steps last e e') (hs : Steps last s s') :
    Steps last (forStatement e s) (forStatement e' s') := by
  intro i hi
  refine (expect_steps hlast rfl _ i hi).discard.bind fun _ j _ hlower hj => ?_
  refine (forInit_steps hlast he j hj).bind fun init k hjk _ hk => ?_
  refine .peek_bind hlast fun kind _ => ?_
  refine .ite_bind (.pure _ (Nat.le_refl k) hk) (he k hk) fun condition l hkl hl => ?_
  refine (expect_steps hlast rfl _ l hl).discard.bind fun _ p hlp _ hp => ?_
  refine .peek_bind hlast fun kind _ => ?_
  refine .ite_bind (.pure none (Nat.le_refl p) hp) (he.map some p hp) fun increment q hpq hq => ?_
  refine (expect_steps hlast rfl _ q hq).discard.bind fun _ r hqr _ hr => ?_
  exact (hs r hr).bind fun body t hrt _ ht => .pure _ (by omega) ht

theorem ifStatement_steps (he : Steps last e e') (hs : Steps last s s') :
    Steps last (ifStatement e s) (ifStatement e' s') := by
  intro i hi
  refine (expect_steps hlast rfl _ i hi).discard.bind fun _ j _ hlower hj => ?_
  refine (he j hj).bind fun condition k hjk _ hk => ?_
  refine (expect_steps hlast rfl _ k hk).discard.bind fun _ l hkl _ hl => ?_
  refine (hs l hl).bind fun yes p hlp _ hp => ?_
  refine (follows_accept hlast rfl hp).bind fun given q hpq _ hq => ?_
  refine .ite_bind (hs.map some q hq) (.pure none (Nat.le_refl q) hq) fun no r hqr hr => ?_
  exact .pure _ (by omega) hr

theorem whileStatement_steps (he : Steps last e e') (hs : Steps last s s') :
    Steps last (whileStatement e s) (whileStatement e' s') := by
  intro i hi
  refine (expect_steps hlast rfl _ i hi).discard.bind fun _ j _ hlower hj => ?_
  refine (he j hj).bind fun condition k hjk _ hk => ?_
  refine (expect_steps hlast rfl _ k hk).discard.bind fun _ l hkl _ hl => ?_
  exact (hs l hl).bind fun body p hlp _ hp => .pure _ (by omega) hp

/-! ### Declarations -/

/-- **A declaration moves on** from where anything is left, whether it can be read or not. -/
theorem follows_declaration (he : Steps last e e') (hs : Steps last s s') (hi : i < limit tokens) :
    Follows last i (i + 1) (declaration e s) (declaration e' s') := by
  refine follows_recover hlast hi ?_
  refine (follows_accept hlast rfl (Nat.le_of_lt hi)).bind fun given j hij _ hj => .ite ?_ ?_
  · exact (varDeclaration_steps hlast he j hj).mono (by omega)
  · exact (hs j hj).mono (by omega)

theorem follows_declarations {d : Walk tokens (Option Stmt)} {d' : Rule (Option Stmt)}
    (hd : ∀ i < limit tokens, Follows last i (i + 1) d d') (stop : Kind → Bool) :
    ∀ bound i, i ≤ limit tokens →
      Follows last i i (declarations stop d bound) (declarations stop d' bound) := by
  intro bound
  induction bound with
  | zero => exact fun i hi => follows_endless
  | succ bound ih =>
    intro i hi
    refine .stopped_bind hlast hi (.pure [] (Nat.le_refl i) hi) fun hlt => ?_
    refine (hd i hlt).bind fun head j hij _ hj => ?_
    exact (ih j hj).bind fun tail k hjk _ hk => .pure _ (Nat.le_trans hij hjk) hk

theorem follows_block {d : Walk tokens (Option Stmt)} {d' : Rule (Option Stmt)}
    (hd : ∀ i < limit tokens, Follows last i (i + 1) d d') (bound : Nat) (hi : i ≤ limit tokens) :
    Follows last i i (block d bound) (block d' bound) :=
  (follows_declarations hlast hd _ bound i hi).bind fun _ _ hij _ hj =>
    follows_close hlast rfl _ _ hij hj

theorem statement_steps (he : Steps last e e') :
    ∀ bound, Steps last (statement e bound) (statement e' bound) := by
  intro bound
  induction bound with
  | zero => exact fun i hi => follows_endless
  | succ bound ih =>
    intro i hi
    refine .peek_bind hlast fun kind hk => ?_
    split
    · exact (forStatement_steps hlast he ih).advance_bind hlast hk rfl hi
    · exact (ifStatement_steps hlast he ih).advance_bind hlast hk rfl hi
    · exact (printStatement_steps hlast he).advance_bind hlast hk rfl hi
    · exact (whileStatement_steps hlast he ih).advance_bind hlast hk rfl hi
    · refine (follows_advance hlast hk rfl hi).discard.bind fun _ j _ hlower hj => ?_
      exact (follows_block hlast (fun i hi => follows_declaration hlast he ih hi) _ hj).mono hlower
    · exact expressionStatement_steps hlast he i hi

theorem follows_program (bound : Nat) :
    Follows last 0 0 (program bound : Walk tokens (List Stmt)) (program bound) := by
  have he : Steps last (expression bound : Walk tokens Expr) (expression bound) :=
    expression_steps hlast bound
  have hs := statement_steps hlast he bound
  exact follows_declarations hlast (fun i hi => follows_declaration hlast he hs hi) _ bound 0
    (Nat.zero_le _)

end Stream

end Walk

/-! ### Parsing -/

/-- Declarations that recover are never stuck themselves. -/
theorem Rule.declarations_ne_stuck {d : Rule (Option Stmt)}
    (hd : ∀ c c' errors, d c ≠ .stuck c' errors) (stop : Kind → Bool) :
    ∀ bound c c' errors, declarations stop d bound c ≠ .stuck c' errors := by
  intro bound
  induction bound with
  | zero => intro c c' errors h; cases h
  | succ bound ih =>
    intro c c' errors h
    rw [declarations, stopped_bind] at h
    split at h
    · cases h
    · rw [bind_apply] at h
      cases hread : d c with
      | stuck c₁ errors₁ => exact hd c c₁ errors₁ hread
      | endless => rw [hread] at h; cases h
      | done head c₁ errors₁ =>
        simp only [hread, bind_apply] at h
        cases hrest : declarations stop d bound c₁ with
        | stuck c₂ errors₂ => exact ih c₁ c₂ errors₂ hrest
        | endless => rw [hrest] at h; cases h
        | done tail c₂ errors₂ => rw [hrest] at h; cases h

theorem Rule.program_ne_stuck (bound : Nat) (c c' : Cursor) (errors : List SyntaxError) :
    (program bound : Rule _) c ≠ .stuck c' errors := by
  refine declarations_ne_stuck (fun c c' errors h => ?_) _ bound c c' errors
  rw [declaration, recover_apply] at h
  split at h <;> cases h

/-- By index a stream is parsed as from the cursor at its start. -/
theorem walk_follows {tokens : List Token} {last : Token} (hlast : tokens.getLast? = some last) :
    (∀ event ∈ (walk tokens).log, event.InBounds tokens) ∧
      Walk.Tracks tokens last 0 0 (walk tokens).landing
        ((Rule.program (tokens.length + 1) : Rule _) ⟨tokens, last⟩) := by
  obtain ⟨hbounds, htracks⟩ := Walk.follows_program hlast (tokens.length + 1)
  have hwalk : walk tokens = (Rule.program (tokens.length + 1) : Walk tokens _) 0 := by
    cases tokens with
    | nil => cases hlast
    | cons t rest => rfl
  rw [hwalk]
  exact ⟨hbounds, htracks⟩

/-- **Parsing ends and stays in bounds.**  Let a stream hold an end of the source, or else not end in
a token that opens something.  Read by index, the grammar comes to an end with what parsing gives.
On the way it asks only for tokens that the stream has, its position is never behind the first end
of the source, and every declaration moves it on, whether the declaration can be read or not. -/
theorem parsing_ends_in_bounds {tokens : List Token}
    (h : (∃ t ∈ tokens, t.kind.isEnd = true) ∨ ∀ last ∈ tokens.getLast?, ¬ last.kind.opens) :
    ∃ log statements finish errors, walk tokens = ⟨log, .done statements finish errors⟩ ∧
      parse? tokens = some ⟨statements, errors⟩ ∧ ∀ event ∈ log, event.InBounds tokens := by
  cases hlast : tokens.getLast? with
  | none =>
    rw [List.getLast?_eq_none_iff.1 hlast]
    exact ⟨[], [], 0, [], rfl, rfl, by simp⟩
  | some last =>
    have hguarded : Cursor.Guarded ⟨tokens, last⟩ := h.imp id fun h => h last hlast
    have hsettles := Rule.program_settles hguarded (Nat.lt_succ_self tokens.length)
    obtain ⟨hbounds, htracks⟩ := walk_follows hlast
    simp only [parse?, hlast]
    generalize walk tokens = trace at hbounds htracks
    obtain ⟨log, landing⟩ := trace
    generalize hreading : (Rule.program (tokens.length + 1) : Rule _) ⟨tokens, last⟩ = reading
      at hsettles htracks
    cases htracks with
    | done => exact ⟨log, _, _, _, rfl, rfl, hbounds⟩
    | stuck => exact absurd hreading (Rule.program_ne_stuck _ _ _ _)
    | endless => exact hsettles.elim

/-- A block without its end, with a statement that cannot be read, and an operator behind which the
stream breaks off. -/
def brokenOff : List Token :=
  [⟨.symbol .leftBrace, "\x7b", 1⟩, ⟨.keyword .print, "print", 1⟩, ⟨.symbol .semicolon, ";", 1⟩,
    ⟨.identifier "a", "a", 1⟩, ⟨.symbol .plus, "+", 1⟩]

theorem brokenOff_in_bounds :
    (∀ last ∈ brokenOff.getLast?, ¬ last.kind.opens) ∧
    ∃ log statements finish errors, walk brokenOff = ⟨log, .done statements finish errors⟩ ∧
      parse? brokenOff = some ⟨statements, errors⟩ ∧ ∀ event ∈ log, event.InBounds brokenOff := by
  have hopens : ∀ last ∈ brokenOff.getLast?, ¬ last.kind.opens := by
    simp [brokenOff, Kind.opens]
  exact ⟨hopens, parsing_ends_in_bounds (.inr hopens)⟩

end Scriptlet
