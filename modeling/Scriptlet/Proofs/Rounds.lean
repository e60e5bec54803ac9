import Scriptlet.Proofs.Frame

/-!
# More rounds

Every loop is given a number of rounds.  A program that comes to its end does so in the same way
with more of them, and one that is out of rounds has so far written the beginning of what it writes
with more.  So the rounds are no part of what a program means: what it does is what it does with
enough of them, and what a program that runs for ever writes is whatever it writes with some number
of rounds.

* `Tracks` : one action does what another one does, or stops on the way, and `Tracks.bind`, by which
  this passes from the steps of an action to the whole;
* `execute_keeps` : what all actions of a machine keep is kept by every statement;
* `Output.Kept` : what a sink keeps when it is printed to and flushed, every program keeps;
* `Sink.Extends`, `Sink.extends_kept` : in a plain sink output is only ever added;
* `Shortens`, `execute_shortens` : with fewer rounds a statement does the same, or is out of rounds;
* `interpret_more`, `interpret_kept` : **a program that ends ends alike with more rounds, and what a
  sink keeps it keeps from fewer rounds to more.**
-/

namespace Scriptlet

/-! ### Actions that may stop on the way -/

section Tracks

variable {ε σ τ α β : Type} {R : σ → τ → Prop}

/-- From related states the second action ends as the first one does, or else it stops in a way that
is described by the state at the start and the states in which the two end. -/
def Tracks (R : σ → τ → Prop) (stops : σ → σ → ε → τ → Prop) (x : EStateM ε σ α)
    (y : EStateM ε τ α) : Prop :=
  ∀ s t, R s t → Alike R (x s) (y t) ∨ ∃ e t', y t = .error e t' ∧ stops s (endState x s) e t'

theorem Mirrors.tracks {stops : σ → σ → ε → τ → Prop} {x : EStateM ε σ α} {y : EStateM ε τ α}
    (h : Mirrors R x y) : Tracks R stops x y :=
  fun s t hst => .inl (h s t hst)

/-- A first step that has stopped has stopped the whole, and a second one if the first one did not
stop. -/
theorem Tracks.bind {first whole : σ → σ → ε → τ → Prop} {second : α → σ → σ → ε → τ → Prop}
    {x : EStateM ε σ α} {y : EStateM ε τ α} {f : α → EStateM ε σ β} {g : α → EStateM ε τ β}
    (hx : Tracks R first x y) (hf : ∀ a, Tracks R (second a) (f a) (g a))
    (hfirst : ∀ s e t, first s (endState x s) e t → whole s (endState (x >>= f) s) e t)
    (hsecond : ∀ s a s' e t, x s = .ok a s' → second a s' (endState (f a) s') e t →
      whole s (endState (f a) s') e t) :
    Tracks R whole (x >>= f) (y >>= g) := by
  intro s t hst
  rcases hx s t hst with h | ⟨e, t', hy, hstop⟩
  · generalize hxs : x s = r, hyt : y t = r' at h
    cases h with
    | @ok a s' t' h =>
      rw [bind_of_ok hxs, bind_of_ok hyt, endState_bind_of_ok hxs]
      refine (hf a s' t' h).imp_right ?_
      rintro ⟨e, t'', hg, hstop⟩
      exact ⟨e, t'', hg, hsecond s a s' e t'' hxs hstop⟩
    | error h =>
      rw [bind_of_error hxs, bind_of_error hyt]
      exact .inl (.error h)
  · exact .inr ⟨e, t', bind_of_error hy, hfirst s e t' hstop⟩

/-- What every second step keeps is kept between the end of the first and the end of both. -/
theorem Keeps.endState_bind {P : σ → σ → Prop} {x : EStateM ε σ α} {f : α → EStateM ε σ β}
    (hrefl : ∀ s, P s s) (hf : ∀ a, Keeps P (f a)) (s : σ) :
    P (endState x s) (endState (x >>= f) s) := by
  cases h : x s with
  | ok a s' =>
    rw [endState_of_ok h, endState_bind_of_ok h]
    exact hf a s'
  | error e s' =>
    rw [endState_of_error h, endState_of_error (bind_of_error h)]
    exact hrefl s'

end Tracks

/-! ### What all statements keep -/

section Statements

open Exec

variable {ω : Type} [Output ω]

/-- A relation between the states before and after every action of a machine. -/
structure Exec.Kept (R : Machine ω → Machine ω → Prop) : Prop where
  /-- Nothing need change. -/
  refl : ∀ m, R m m
  /-- Actions may follow each other. -/
  trans : ∀ {a b c}, R a b → R b c → R a c
  /-- An expression may be evaluated. -/
  evaluate : ∀ e, Keeps R (evaluate e)
  /-- A value may be printed. -/
  print : ∀ v line, Keeps R (printLine v line)
  /-- A variable may be declared. -/
  define : ∀ name value, Keeps R (define name value)
  /-- All this may happen in a scope of its own. -/
  withinNew : ∀ action, Keeps R action → Keeps R (withinNew action)

variable {R : Machine ω → Machine ω → Prop}

theorem repeatWhile_keeps (hR : Kept R) {action : ExecOn ω Unit} (condition : Expr)
    (h : Keeps R action) : ∀ rounds, Keeps R (repeatWhile condition action rounds) := by
  intro rounds
  induction rounds with
  | zero => exact hR.refl
  | succ rounds ih =>
    refine .bind hR.trans (hR.evaluate condition) fun v => ?_
    split
    · exact .bind hR.trans h fun _ => ih
    · exact hR.refl

mutual

/-- What all actions of a machine keep is kept by every statement. -/
theorem execute_keeps (hR : Kept R) (rounds : Nat) : ∀ s, Keeps R (execute rounds s)
  | .print value => .bind hR.trans (hR.evaluate value) fun v => hR.print _ _
  | .expression e => .bind hR.trans (hR.evaluate e) fun v => hR.refl
  | .var name none => hR.define name.lexeme .nil
  | .var name (some init) => .bind hR.trans (hR.evaluate init) fun v => hR.define name.lexeme v
  | .block body => hR.withinNew _ (executeAll_keeps hR rounds body)
  | .branch condition yes none => by
    refine .bind hR.trans (hR.evaluate condition) fun v => ?_
    split
    · exact execute_keeps hR rounds yes
    · exact hR.refl
  | .branch condition yes (some no) => by
    refine .bind hR.trans (hR.evaluate condition) fun v => ?_
    split
    · exact execute_keeps hR rounds yes
    · exact execute_keeps hR rounds no
  | .loop condition body =>
    repeatWhile_keeps hR condition (execute_keeps hR rounds body) rounds
termination_by structural s => s

theorem executeAll_keeps (hR : Kept R) (rounds : Nat) : ∀ body, Keeps R (executeAll rounds body)
  | [] => hR.refl
  | s :: rest =>
    .bind hR.trans (execute_keeps hR rounds s) fun _ => executeAll_keeps hR rounds rest
termination_by structural body => body

end

end Statements

/-! ### What sinks keep -/

section Kept

open Exec

variable {ω : Type} [Output ω]

/-- A relation between sinks before and after they are printed to and flushed. -/
structure Output.Kept (P : ω → ω → Prop) : Prop where
  /-- Nothing need change. -/
  refl : ∀ sink, P sink sink
  /-- Changes may follow each other. -/
  trans : ∀ {a b c}, P a b → P b c → P a c
  /-- A value may be printed. -/
  print : ∀ v sink, P sink (Output.print v sink).2
  /-- What was printed may be passed on. -/
  flush : ∀ sink, P sink (Output.flush sink).2

variable {P : ω → ω → Prop}

/-- What sinks keep is kept by all actions of a machine. -/
theorem Output.Kept.actions (hP : Output.Kept P) :
    Exec.Kept fun before after : Machine ω => P before.sink after.sink where
  refl m := hP.refl _
  trans := hP.trans
  evaluate e := by
    intro m
    rw [endState_through (evaluate_eq e m)]
    exact hP.refl _
  print v line := by
    intro m
    rw [endState_through (printLine_eq v line m)]
    have hprint := hP.print v m.sink
    show P m.sink (endState (printing v line) m.sink)
    unfold endState printing
    rcases h : Output.print v m.sink with ⟨_ | reason, after⟩ <;> simpa only [h] using hprint
  define name value := fun m => hP.refl _
  withinNew action h := by
    intro m
    rw [endState_through (withinNew_eq action m)]
    exact h m.inner

theorem Output.Kept.flushing (hP : Output.Kept P) (action : ExecOn ω Unit) (m : Machine ω) :
    P (endState action m).sink (endState (flushing action) m).sink := by
  have hflush (after : Machine ω) : P after.sink (endState Exec.flush after).sink := by
    rw [endState_flush]
    exact hP.flush after.sink
  cases h : action m with
  | ok _ after =>
    rw [endState_of_ok h, endState, flushing_of_ok h]
    exact hflush after
  | error stop after =>
    rw [endState_of_error h]
    cases stop with
    | outOfRounds =>
      rw [endState_of_error (flushing_of_outOfRounds h)]
      exact hP.refl _
    | error e =>
      rw [endState_of_error (flushing_of_error h)]
      exact hflush after

/-- **What sinks keep is kept by every program.** -/
theorem Output.Kept.interpret (hP : Output.Kept P) (rounds : Nat) (program : List Stmt)
    (m : Machine ω) : P m.sink (endState (interpret rounds program) m).sink := by
  rw [interpret_eq]
  exact hP.trans (executeAll_keeps hP.actions rounds program m) (hP.flushing _ m)

/-- Nothing need be kept. -/
theorem Output.kept_true : Output.Kept fun _ _ : ω => True :=
  ⟨fun _ => ⟨⟩, fun _ _ => ⟨⟩, fun _ _ => ⟨⟩, fun _ => ⟨⟩⟩

end Kept

/-- One sink has all that another one has been given, and perhaps more behind it. -/
def Sink.Extends (before after : Sink) : Prop :=
  ∃ more, after.written = before.written ++ more

/-- In a plain sink output is only ever added. -/
theorem Sink.extends_kept : Output.Kept Sink.Extends where
  refl a := ⟨.empty, ByteArray.append_empty.symm⟩
  trans := by
    rintro a b c ⟨more, hb⟩ ⟨further, hc⟩
    exact ⟨more ++ further, by rw [hc, hb, ByteArray.append_assoc]⟩
  print v sink := by
    show sink.Extends (sink.write v.printed).2
    unfold Sink.write
    cases sink.room with
    | none => exact ⟨v.printed, rfl⟩
    | some room => exact ⟨v.printed.extract 0 room, rfl⟩
  flush sink := ⟨.empty, ByteArray.append_empty.symm⟩

/-! ### More rounds -/

section More

open Exec

variable {ω : Type} {P : ω → ω → Prop}

/-- With too few rounds an action stops, and what sinks keep has been kept from there to the end
with more of them. -/
def OutOfRounds (P : ω → ω → Prop) (_ last : Machine ω) (stop : Stop) (m : Machine ω) : Prop :=
  stop = .outOfRounds ∧ P m.sink last.sink

/-- One action does what another one does, or runs out of rounds. -/
abbrev Shortens {α : Type} (P : ω → ω → Prop) (x y : ExecOn ω α) : Prop :=
  Tracks Eq (OutOfRounds P) x y

/-- An action keeps what sinks keep. -/
abbrev KeepsSink {α : Type} (P : ω → ω → Prop) (x : ExecOn ω α) : Prop :=
  Keeps (fun before after : Machine ω => P before.sink after.sink) x

theorem Shortens.refl {α : Type} (x : ExecOn ω α) : Shortens P x x := by
  rintro m _ rfl
  exact .inl (.refl _)

theorem Shortens.withinNew {x y : ExecOn ω Unit} (h : Shortens P x y) :
    Shortens P (withinNew x) (withinNew y) := by
  rintro m _ rfl
  rw [endState_through (withinNew_eq x m), withinNew_eq, withinNew_eq]
  rcases h m.inner m.inner rfl with h | ⟨stop, t, hy, hstop⟩
  · exact .inl (h.through fun s t hst => by rw [hst])
  · exact .inr ⟨stop, ⟨t.store.drop, m.here, t.sink⟩, by rw [hy]; rfl, hstop⟩

variable [Output ω] {rounds more : Nat}

theorem Shortens.bind (hP : Output.Kept P) {α β : Type} {x y : ExecOn ω α} {f g : α → ExecOn ω β}
    (hx : Shortens P x y) (hf : ∀ a, Shortens P (f a) (g a)) (hkeeps : ∀ a, KeepsSink P (f a)) :
    Shortens P (x >>= f) (y >>= g) := by
  refine Tracks.bind hx hf ?_ fun _ _ _ _ _ _ hstop => hstop
  rintro m stop t ⟨hstop, hlast⟩
  exact ⟨hstop, hP.trans hlast (Keeps.endState_bind hP.actions.refl hkeeps m)⟩

theorem Shortens.repeatWhile (hP : Output.Kept P) (condition : Expr) {x y : ExecOn ω Unit}
    (h : Shortens P x y) (hkeeps : KeepsSink P x) :
    ∀ {rounds more}, rounds ≤ more →
      Shortens P (repeatWhile condition x more) (repeatWhile condition y rounds) := by
  intro rounds
  induction rounds with
  | zero =>
    rintro more - m _ rfl
    -- no round is left, and nothing has been printed
    exact .inr ⟨_, m, rfl, rfl, repeatWhile_keeps hP.actions condition hkeeps more m⟩
  | succ rounds ih =>
    intro more hle
    cases more with
    | zero => exact absurd hle (Nat.not_succ_le_zero _)
    | succ more =>
      have hmore := repeatWhile_keeps hP.actions condition hkeeps more
      refine Shortens.bind hP (.refl _) (fun v => ?_) fun v => ?_
      · split
        · exact h.bind hP (fun _ => ih (Nat.le_of_succ_le_succ hle)) fun _ => hmore
        · exact .refl _
      · split
        · exact .bind hP.actions.trans hkeeps fun _ => hmore
        · exact hP.actions.refl

mutual

/-- With fewer rounds a statement does the same, or it is out of rounds. -/
theorem execute_shortens (hP : Output.Kept P) (hle : rounds ≤ more) :
    ∀ s, Shortens P (execute more s) (execute rounds s)
  | .print _ => .refl _
  | .expression _ => .refl _
  | .var _ none => .refl _
  | .var _ (some _) => .refl _
  | .block body => (executeAll_shortens hP hle body).withinNew
  | .branch condition yes none => by
    refine Shortens.bind hP (.refl _) (fun v => ?_) fun v => ?_
    · split
      · exact execute_shortens hP hle yes
      · exact .refl _
    · split
      · exact execute_keeps hP.actions more yes
      · exact hP.actions.refl
  | .branch condition yes (some no) => by
    refine Shortens.bind hP (.refl _) (fun v => ?_) fun v => ?_
    · split
      · exact execute_shortens hP hle yes
      · exact execute_shortens hP hle no
    · split
      · exact execute_keeps hP.actions more yes
      · exact execute_keeps hP.actions more no
  | .loop condition body =>
    (execute_shortens hP hle body).repeatWhile hP condition
      (execute_keeps hP.actions more body) hle
termination_by structural s => s

theorem executeAll_shortens (hP : Output.Kept P) (hle : rounds ≤ more) :
    ∀ body, Shortens P (executeAll more body) (executeAll rounds body)
  | [] => .refl _
  | s :: rest =>
    (execute_shortens hP hle s).bind hP (fun _ => executeAll_shortens hP hle rest) fun _ =>
      executeAll_keeps hP.actions more rest
termination_by structural body => body

end

theorem Shortens.flushing (hP : Output.Kept P) {x y : ExecOn ω Unit} (h : Shortens P x y) :
    Shortens P (flushing x) (flushing y) := by
  rintro m _ rfl
  rcases h m m rfl with h | ⟨stop, t, hy, rfl, hlast⟩
  · refine .inl ?_
    simp only [Exec.flushing, h.eq]
    exact .refl _
  · exact .inr ⟨_, t, flushing_of_outOfRounds hy, rfl, hP.trans hlast (hP.flushing x m)⟩

/-- **A program that ends ends alike with more rounds.** -/
theorem interpret_more (hle : rounds ≤ more) {program : List Stmt} {m : Machine ω}
    (h : ∀ t, interpret rounds program m ≠ .error .outOfRounds t) :
    interpret more program m = interpret rounds program m := by
  have hP : Output.Kept fun _ _ : ω => True := Output.kept_true
  rcases (executeAll_shortens hP hle program).flushing hP m m rfl with hsame | ⟨_, t, hstop, rfl, -⟩
  · exact hsame.eq
  · exact absurd hstop (h t)

/-- **What a sink keeps it keeps from fewer rounds to more.** -/
theorem interpret_kept (hP : Output.Kept P) (hle : rounds ≤ more) (program : List Stmt)
    (m : Machine ω) :
    P (endState (interpret rounds program) m).sink (endState (interpret more program) m).sink := by
  rcases (executeAll_shortens hP hle program).flushing hP m m rfl with hsame | ⟨_, t, hstop, -, h⟩
  · rw [interpret_eq, interpret_eq, hsame.endState]
    exact hP.refl _
  · rwa [interpret_eq, endState_of_error hstop]

end More

end Scriptlet
