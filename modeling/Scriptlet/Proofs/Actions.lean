import Scriptlet.Machine

/-!
# Actions and how they end

An action starts in a state and ends, with a result or with an error, in another one.  What is
proved about expressions and statements is of three kinds, each of which passes from the steps of an
action to the whole:

* `Keeps` : from every state the action ends in a related one;
* `Mirrors` : two actions, started in related states, end alike and in related states;
* `bind_congr_at` : two actions are the same in a state, if their first steps are and so is what
  follows where the first step ends.

The actions of a machine are then given in a form to which these apply.  The two expressions that
touch the store are actions of their own, `lookUp` and `overwrite`.  Actions on a part of the state,
or in another scope, are seen `through` it (`Exec.evaluate_eq`, `Exec.withinNew_eq` and the like).
Every loop is a `whileTrue`.
-/

namespace Scriptlet

variable {ε σ τ α β : Type}

/-! ### The state at the end -/

/-- The state that an action leaves, however it ends. -/
def endState (x : EStateM ε σ α) (s : σ) : σ :=
  match x s with
  | .ok _ s' => s'
  | .error _ s' => s'

section Bind

variable {x y : EStateM ε σ α} {f g : α → EStateM ε σ β} {s s' : σ} {a : α} {e : ε}

theorem endState_of_ok (h : x s = .ok a s') : endState x s = s' := by
  rw [endState, h]

theorem endState_of_error (h : x s = .error e s') : endState x s = s' := by
  rw [endState, h]

theorem bind_of_ok (h : x s = .ok a s') : (x >>= f) s = f a s' := by
  simp only [Bind.bind, EStateM.bind, h]

theorem bind_of_error (h : x s = .error e s') : (x >>= f) s = .error e s' := by
  simp only [Bind.bind, EStateM.bind, h]

theorem endState_bind_of_ok (h : x s = .ok a s') : endState (x >>= f) s = endState (f a) s' := by
  rw [endState, bind_of_ok h, endState]

theorem bind_eq_ok {b : β} (h : (x >>= f) s = .ok b s') :
    ∃ a t, x s = .ok a t ∧ f a t = .ok b s' := by
  cases hx : x s with
  | ok a t => exact ⟨a, t, rfl, by rwa [bind_of_ok hx] at h⟩
  | error e t => rw [bind_of_error hx] at h; cases h

theorem bind_eq_error (h : (x >>= f) s = .error e s') :
    x s = .error e s' ∨ ∃ a t, x s = .ok a t ∧ f a t = .error e s' := by
  cases hx : x s with
  | ok a t => exact .inr ⟨a, t, rfl, by rwa [bind_of_ok hx] at h⟩
  | error e t =>
    rw [bind_of_error hx] at h
    cases h
    exact .inl rfl

theorem bind_congr_at (hx : x s = y s) (hf : ∀ a t, x s = .ok a t → f a t = g a t) :
    (x >>= f) s = (y >>= g) s := by
  cases h : x s with
  | ok a t => rw [bind_of_ok h, bind_of_ok (hx ▸ h), hf a t h]
  | error e t => rw [bind_of_error h, bind_of_error (hx ▸ h)]

end Bind

/-! ### Actions on a part of the state -/

section Through

variable {δ : Type}

/-- A result with another state and another error in place of its own. -/
def through (f : σ → τ) (g : ε → δ) : EStateM.Result ε σ α → EStateM.Result δ τ α
  | .ok a s => .ok a (f s)
  | .error e s => .error (g e) (f s)

theorem endState_through {x : EStateM δ τ α} {t : τ} {f : σ → τ} {g : ε → δ}
    {y : EStateM ε σ α} {s : σ} (h : x t = through f g (y s)) : endState x t = f (endState y s) := by
  rw [endState, h, endState]
  cases y s <;> rfl

end Through

/-! ### Relating the state before to the state after -/

section Keeps

variable {R : σ → σ → Prop} {x : EStateM ε σ α} {f : α → EStateM ε σ β}

/-- From every state the action ends in a related one. -/
def Keeps (R : σ → σ → Prop) (x : EStateM ε σ α) : Prop := ∀ s, R s (endState x s)

namespace Keeps

theorem bind (htrans : ∀ {a b c}, R a b → R b c → R a c) (hx : Keeps R x)
    (hf : ∀ a, Keeps R (f a)) : Keeps R (x >>= f) := by
  intro s
  have hs := hx s
  cases h : x s with
  | ok a s' =>
    rw [endState_of_ok h] at hs
    rw [endState_bind_of_ok h]
    -- through the state between the two steps
    exact htrans hs (hf a s')
  | error e s' =>
    rw [endState_of_error h] at hs
    rwa [endState_of_error (bind_of_error h)]

theorem ofExcept (hrefl : ∀ s, R s s) (result : Except ε α) :
    Keeps R (ofExcept result : EStateM ε σ α) := by
  intro s
  cases result <;> exact hrefl s

end Keeps

end Keeps

/-! ### Relating two actions -/

section Mirrors

variable {R : σ → τ → Prop} {x : EStateM ε σ α} {y : EStateM ε τ α}
  {f : α → EStateM ε σ β} {g : α → EStateM ε τ β}

/-- Two actions end alike, and in related states. -/
inductive Alike (R : σ → τ → Prop) : EStateM.Result ε σ α → EStateM.Result ε τ α → Prop
  | ok {a s t} (h : R s t) : Alike R (.ok a s) (.ok a t)
  | error {e s t} (h : R s t) : Alike R (.error e s) (.error e t)

theorem Alike.refl (r : EStateM.Result ε σ α) : Alike Eq r r := by
  cases r with
  | ok a s => exact .ok rfl
  | error e s => exact .error rfl

theorem Alike.eq {r r' : EStateM.Result ε σ α} (h : Alike Eq r r') : r = r' := by
  cases h with
  | ok h => rw [h]
  | error h => rw [h]

theorem Alike.endState {x : EStateM ε σ α} {y : EStateM ε τ α} {s : σ} {t : τ}
    (h : Alike R (x s) (y t)) : R (Scriptlet.endState x s) (Scriptlet.endState y t) := by
  unfold Scriptlet.endState
  generalize x s = r, y t = r' at h ⊢
  cases h with
  | ok h => exact h
  | error h => exact h

theorem Alike.mono {R' : σ → τ → Prop} {r : EStateM.Result ε σ α} {r' : EStateM.Result ε τ α}
    (h : Alike R r r') (hR : ∀ s t, R s t → R' s t) : Alike R' r r' := by
  cases h with
  | ok h => exact .ok (hR _ _ h)
  | error h => exact .error (hR _ _ h)

theorem Alike.symm {r : EStateM.Result ε σ α} {r' : EStateM.Result ε τ α} (h : Alike R r r') :
    Alike (fun t s => R s t) r' r := by
  cases h with
  | ok h => exact .ok h
  | error h => exact .error h

theorem Alike.trans {υ : Type} {R' : τ → υ → Prop} {r : EStateM.Result ε σ α}
    {r' : EStateM.Result ε τ α} {r'' : EStateM.Result ε υ α} (h : Alike R r r')
    (h' : Alike R' r' r'') : Alike (fun s u => ∃ t, R s t ∧ R' t u) r r'' := by
  cases h with
  | ok h => cases h' with | ok h' => exact .ok ⟨_, h, h'⟩
  | error h => cases h' with | error h' => exact .error ⟨_, h, h'⟩

theorem Alike.through {δ σ' τ' : Type} {R' : σ' → τ' → Prop} {f : σ → σ'} {f' : τ → τ'} {g : ε → δ}
    {r : EStateM.Result ε σ α} {r' : EStateM.Result ε τ α} (h : Alike R r r')
    (hf : ∀ s t, R s t → R' (f s) (f' t)) :
    Alike R' (through f g r) (through f' g r') := by
  cases h with
  | ok h => exact .ok (hf _ _ h)
  | error h => exact .error (hf _ _ h)

/-- Where the second state tells the first, so does the second result. -/
theorem Alike.eq_of_unique {r r' : EStateM.Result ε σ α} {r'' : EStateM.Result ε τ α}
    (hunique : ∀ {s s' t}, R s t → R s' t → s = s') (h : Alike R r r'') (h' : Alike R r' r'') :
    r = r' := by
  cases h with
  | ok h => cases h' with | ok h' => rw [hunique h h']
  | error h => cases h' with | error h' => rw [hunique h h']

/-- From related states two actions end alike, and in related states. -/
def Mirrors (R : σ → τ → Prop) (x : EStateM ε σ α) (y : EStateM ε τ α) : Prop :=
  ∀ s t, R s t → Alike R (x s) (y t)

namespace Mirrors

theorem bind (hx : Mirrors R x y) (hf : ∀ a, Mirrors R (f a) (g a)) :
    Mirrors R (x >>= f) (y >>= g) := by
  intro s t hst
  have h := hx s t hst
  generalize hxs : x s = r, hyt : y t = r' at h
  cases h with
  | @ok a s' t' h =>
    rw [bind_of_ok hxs, bind_of_ok hyt]
    exact hf a s' t' h
  | error h =>
    rw [bind_of_error hxs, bind_of_error hyt]
    exact .error h

theorem pure (a : α) : Mirrors R (Pure.pure a : EStateM ε σ α) (Pure.pure a) :=
  fun _ _ hst => .ok hst

theorem throw (e : ε) : Mirrors R (throw e : EStateM ε σ α) (throw e) :=
  fun _ _ hst => .error hst

theorem ofExcept (result : Except ε α) :
    Mirrors R (ofExcept result : EStateM ε σ α) (ofExcept result) := by
  cases result with
  | ok a => exact pure a
  | error e => exact throw e

end Mirrors

end Mirrors

/-! ### Expressions that touch the store -/

/-- Reads a variable. -/
def lookUp (here : ScopeId) (name : Token) : EStateM RuntimeError Store Value := fun store =>
  match store.get here name with
  | .ok v => .ok v store
  | .error e => .error e store

/-- Gives a variable a value, which is also the result. -/
def overwrite (here : ScopeId) (name : Token) (v : Value) : EStateM RuntimeError Store Value :=
  fun store =>
    match store.assign here name v with
    | .ok after => .ok v after
    | .error e => .error e store

theorem eval_reference (here : ScopeId) (name : Token) :
    eval here (.reference name) = lookUp here name := by
  funext store
  show (ofExcept (store.get here name) : EStateM RuntimeError Store Value) store = _
  unfold lookUp
  cases store.get here name <;> rfl

theorem eval_assign (here : ScopeId) (name : Token) (value : Expr) :
    eval here (.assign name value) = eval here value >>= overwrite here name := by
  simp only [eval]
  congr 1
  funext v store
  show (ofExcept (store.assign here name v) >>= fun after => do set after; return v :
    EStateM RuntimeError Store Value) store = _
  unfold overwrite
  cases store.assign here name v <;> rfl

/-! ### Actions of a machine, by what they are made of -/

/-- Acts as long as a condition gives a true value, at most the given number of rounds. -/
def whileTrue (condition : EStateM Stop σ Value) (action : EStateM Stop σ Unit) :
    Nat → EStateM Stop σ Unit
  | 0 => throw .outOfRounds
  | rounds + 1 => do
    if (← condition).truthy then
      action
      whileTrue condition action rounds
    else
      return ()

theorem Mirrors.whileTrue {R : σ → τ → Prop} {condition : EStateM Stop σ Value}
    {condition' : EStateM Stop τ Value} {action : EStateM Stop σ Unit}
    {action' : EStateM Stop τ Unit} (hcondition : Mirrors R condition condition')
    (haction : Mirrors R action action') :
    ∀ rounds, Mirrors R (whileTrue condition action rounds)
      (whileTrue condition' action' rounds) := by
  intro rounds
  induction rounds with
  | zero => exact .throw _
  | succ rounds ih =>
    refine hcondition.bind fun v => ?_
    split
    · exact haction.bind fun _ => ih
    · exact .pure ()

section

variable {ω : Type}

/-- Prints a value to a sink. -/
def printing [Output ω] (v : Value) (line : Nat) : EStateM Stop ω Unit := fun sink =>
  match Output.print v sink with
  | (none, after) => .ok () after
  | (some reason, after) => .error (.error ⟨.outputFailed reason, line⟩) after

/-- The machine in a new scope under the current one. -/
def Machine.inner (m : Machine ω) : Machine ω :=
  ⟨m.store.add (some m.here), m.store.nextId, m.sink⟩

namespace Exec

/-- Computes a value in the current scope. -/
def evaluating (value : ScopeId → EStateM RuntimeError Store Value) : ExecOn ω Value :=
  fun ⟨store, here, sink⟩ =>
    match value here store with
    | .ok v store => .ok v ⟨store, here, sink⟩
    | .error error store => .error (.error error) ⟨store, here, sink⟩

/-- Acts and then flushes the output, also after an error, which is then the one that counts. -/
def flushing [Output ω] (action : ExecOn ω Unit) : ExecOn ω Unit := fun m =>
  match action m with
  | .ok () m => flush m
  | .error (.error e) m =>
    match flush m with
    | .ok () m => .error (.error e) m
    | .error _ m => .error (.error e) m
  | .error .outOfRounds m => .error .outOfRounds m

theorem evaluating_eq (value : ScopeId → EStateM RuntimeError Store Value) (m : Machine ω) :
    evaluating value m =
      through (fun store => { m with store }) Stop.error (value m.here m.store) := by
  obtain ⟨store, here, sink⟩ := m
  simp only [evaluating]
  cases value here store <;> rfl

theorem evaluate_eq (e : Expr) (m : Machine ω) :
    evaluate e m = through (fun store => { m with store }) Stop.error (eval m.here e m.store) :=
  evaluating_eq (fun here => eval here e) m

theorem within_eq (scope : ScopeId) (action : ExecOn ω Unit) (m : Machine ω) :
    within scope action m =
      through (fun inside => { inside with here := m.here }) id
        (action { m with here := scope }) := by
  obtain ⟨store, here, sink⟩ := m
  simp only [within]
  cases action ⟨store, scope, sink⟩ <;> rfl

theorem withinNew_eq (action : ExecOn ω Unit) (m : Machine ω) :
    withinNew action m =
      through (fun inside => ⟨inside.store.drop, m.here, inside.sink⟩) id (action m.inner) := by
  obtain ⟨store, here, sink⟩ := m
  simp only [withinNew, within, Machine.inner]
  cases action ⟨store.add (some here), store.nextId, sink⟩ <;> rfl

theorem printLine_eq [Output ω] (v : Value) (line : Nat) (m : Machine ω) :
    printLine v line m = through (fun sink => { m with sink }) id (printing v line m.sink) := by
  obtain ⟨store, here, sink⟩ := m
  simp only [printLine, printing]
  rcases Output.print v sink with ⟨_ | reason, after⟩ <;> rfl

theorem repeatWhile_eq (condition : Expr) (action : ExecOn ω Unit) :
    ∀ rounds, repeatWhile condition action rounds =
      whileTrue (evaluate condition) action rounds := by
  intro rounds
  induction rounds with
  | zero => rfl
  | succ rounds ih => simp only [repeatWhile, whileTrue, ih]

variable [Output ω]

theorem endState_flush (m : Machine ω) :
    endState flush m = { m with sink := (Output.flush m.sink).2 } := by
  obtain ⟨store, here, sink⟩ := m
  unfold endState flush
  rcases h : Output.flush sink with ⟨_ | reason, after⟩ <;> simp only [h]

/-- A flush at the end changes nothing but the sink. -/
theorem endState_flushing (action : ExecOn ω Unit) (m : Machine ω) :
    ∃ sink, endState (flushing action) m = { endState action m with sink } := by
  cases h : action m with
  | ok _ after =>
    refine ⟨(Output.flush after.sink).2, ?_⟩
    rw [endState_of_ok h, ← endState_flush]
    simp only [endState, flushing, h]
  | error stop after =>
    rw [endState_of_error h]
    cases stop with
    | outOfRounds => exact ⟨after.sink, by simp only [endState, flushing, h]⟩
    | error e =>
      refine ⟨(Output.flush after.sink).2, ?_⟩
      rw [← endState_flush]
      cases hf : flush after <;> simp only [endState, flushing, h, hf]

theorem flushing_of_ok {action : ExecOn ω Unit} {m after : Machine ω} (h : action m = .ok () after) :
    flushing action m = flush after := by
  simp only [flushing, h]

theorem flushing_of_outOfRounds {action : ExecOn ω Unit} {m after : Machine ω}
    (h : action m = .error .outOfRounds after) :
    flushing action m = .error .outOfRounds after := by
  simp only [flushing, h]

theorem flushing_of_error {action : ExecOn ω Unit} {m after : Machine ω} {e : RuntimeError}
    (h : action m = .error (.error e) after) :
    flushing action m = .error (.error e) (endState flush after) := by
  cases hf : flush after <;> simp only [flushing, h, hf, endState]

/-- Where two actions end alike, they do so with a flush behind them. -/
theorem flushing_alike {τ : Type} [Output τ] {R : Machine ω → Machine τ → Prop}
    (hflush : Mirrors R flush flush) {x : ExecOn ω Unit} {y : ExecOn τ Unit} {m : Machine ω}
    {t : Machine τ} (h : Alike R (x m) (y t)) : Alike R (flushing x m) (flushing y t) := by
  generalize hm : x m = r, ht : y t = r' at h
  cases h with
  | @ok _ after after' h =>
    rw [flushing_of_ok hm, flushing_of_ok ht]
    exact hflush after after' h
  | @error stop after after' h =>
    cases stop with
    | outOfRounds =>
      rw [flushing_of_outOfRounds hm, flushing_of_outOfRounds ht]
      exact .error h
    | error e =>
      rw [flushing_of_error hm, flushing_of_error ht]
      exact .error (hflush after after' h).endState

end Exec

theorem interpret_eq [Output ω] (rounds : Nat) (program : List Stmt) :
    (interpret rounds program : ExecOn ω Unit) = Exec.flushing (executeAll rounds program) :=
  rfl

end

end Scriptlet
