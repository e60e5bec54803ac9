import Scriptlet.Proofs.Frame
import Scriptlet.Session

/-!
# Reachable machines

A machine starts with one scope.  After that scopes are only ever added, each under one that exists,
and removed again in the order in which they came; nothing changes what a scope's parent is.  So in
every machine that can be reached the scopes form chains.

A scope is known by its place, and whoever knows the place may use the scope: to copy a handle or to
ask for a parent leaves all scopes as they are.  Several machines may share scopes.

* `Machine.WellFormed` : the current scope exists, and every scope is younger than its parent;
* `Machine.Reachable` : the machines that can be reached, by programs or by hand;
* `Machine.Reachable.wellFormed` : **every reachable machine is well-formed.**
-/

namespace Scriptlet

namespace Machine

variable {ω : Type}

/-- The current scope exists, and every scope is younger than its parent. -/
structure WellFormed (m : Machine ω) : Prop where
  /-- The current scope exists. -/
  here : m.here < m.store.scopes.size
  /-- Scopes form chains. -/
  ordered : m.store.Ordered

theorem wellFormed_new (sink : ω) : (Machine.new sink).WellFormed := by
  have hempty : Store.Ordered {} := fun id parent h => by cases h
  exact ⟨Nat.zero_lt_one, hempty.add (by rintro id ⟨⟩)⟩

/-- Whatever keeps the scopes there are and their parents keeps a machine well-formed. -/
theorem WellFormed.grows {m m' : Machine ω} {id : ScopeId} {names : List String} (h : m.WellFormed)
    (hhere : m'.here = m.here) (hgrows : m.store.Grows id names m'.store) : m'.WellFormed := by
  refine ⟨?_, h.ordered.congr hgrows.parent⟩
  rw [hhere, hgrows.size]
  exact h.here

/-- A step of a run that ends well leaves scopes in chains. -/
theorem WellFormed.step {m m' : Machine ω} {α : Type} {x : ExecOn ω α} {a : α}
    {names : List String} (h : m.WellFormed) (hgrows : m.Grows names (endState x m))
    (hx : x m = .ok a m') : m'.WellFormed := by
  rw [endState_of_ok hx] at hgrows
  exact h.grows hgrows.here hgrows.store

theorem WellFormed.evaluate_ok {m m' : Machine ω} {e : Expr} {v : Value} (h : m.WellFormed)
    (heval : Exec.evaluate e m = .ok v m') : m'.WellFormed :=
  h.step (Exec.evaluate_grows e m : m.Grows [] _) heval

theorem WellFormed.add {m : Machine ω} (h : m.WellFormed) {parent : Option ScopeId}
    (hparent : ∀ id ∈ parent, id < m.store.scopes.size) :
    WellFormed { m with store := m.store.add parent } := by
  refine ⟨?_, h.ordered.add hparent⟩
  show m.here < (m.store.add parent).scopes.size
  rw [Store.size_add]
  exact Nat.lt_succ_of_lt h.here

theorem WellFormed.inner {m : Machine ω} (h : m.WellFormed) : m.inner.WellFormed := by
  refine ⟨?_, h.ordered.add (by rintro id ⟨⟩; exact h.here)⟩
  rw [Machine.inner, Store.size_add]
  exact Nat.lt_succ_self _

variable [Output ω]

/-- The machines that come from a new one by running sources and executing statements, here or in any
scope, by opening, declaring and assigning by hand, and by giving the scopes to another machine. -/
inductive Reachable : Machine ω → Prop
  | new (sink : ω) : Reachable (Machine.new sink)
  | turn {m : Machine ω} (h : Reachable m) (id : ScopeId) (hid : id < m.store.scopes.size)
    (sink : ω) : Reachable { m with here := id, sink }
  | root {m : Machine ω} (h : Reachable m) : Reachable { m with store := m.store.add none }
  | child {m : Machine ω} (h : Reachable m) (id : ScopeId) (hid : id < m.store.scopes.size) :
    Reachable { m with store := m.store.add (some id) }
  | define {m : Machine ω} (h : Reachable m) (id : ScopeId) (name : String) (value : Value) :
    Reachable { m with store := m.store.define id name value }
  | assign {m : Machine ω} (h : Reachable m) {id : ScopeId} {name : Token} {value : Value}
    {store : Store} (hassign : m.store.assign id name value = .ok store) :
    Reachable { m with store }
  | execute {m : Machine ω} (h : Reachable m) (rounds : Nat) (s : Stmt) :
    Reachable (endState (Scriptlet.execute rounds s) m)
  | executeIn {m : Machine ω} (h : Reachable m) (rounds : Nat) (scope : ScopeId)
    (body : List Stmt) : Reachable (endState (Scriptlet.executeIn rounds scope body) m)
  | interpret {m : Machine ω} (h : Reachable m) (rounds : Nat) (program : List Stmt) :
    Reachable (endState (Scriptlet.interpret rounds program) m)
  | run {m : Machine ω} (h : Reachable m) (rounds : Nat) (source : String) :
    Reachable (m.run rounds source).machine

theorem WellFormed.interpret {m : Machine ω} (h : m.WellFormed) (rounds : Nat)
    (program : List Stmt) : (endState (Scriptlet.interpret rounds program) m).WellFormed := by
  have hgrows := interpret_grows rounds program m
  exact h.grows hgrows.here hgrows.store

/-- A source leaves a machine as it was, or as its program does. -/
theorem run_cases {P : Machine ω → Prop} {m : Machine ω} {rounds : Nat} (h : P m)
    (hprogram : ∀ program, P (endState (Scriptlet.interpret rounds program) m)) (source : String) :
    P (m.run rounds source).machine := by
  unfold Machine.run
  cases check source with
  | endless => exact h
  | rejected errors => exact h
  | program statements =>
    have hend := hprogram statements
    cases hrun : Scriptlet.interpret rounds statements m with
    | ok _ after =>
      rw [endState_of_ok hrun] at hend
      simpa only [hrun] using hend
    | error stop after =>
      rw [endState_of_error hrun] at hend
      cases stop <;> simpa only [hrun] using hend

theorem WellFormed.run {m : Machine ω} (h : m.WellFormed) (rounds : Nat) (source : String) :
    (m.run rounds source).machine.WellFormed :=
  run_cases h (h.interpret rounds) source

/-- **Every reachable machine is well-formed.** -/
theorem Reachable.wellFormed {m : Machine ω} (h : m.Reachable) : m.WellFormed := by
  induction h with
  | new sink => exact wellFormed_new sink
  | turn _ id hid sink ih => exact ⟨hid, ih.ordered⟩
  | root _ ih => exact ih.add (by rintro id ⟨⟩)
  | child _ id hid ih => exact ih.add (by rintro _ ⟨⟩; exact hid)
  | define _ id name value ih => exact ih.grows rfl (Store.grows_define _ id name value)
  | @assign m _ id name value store hassign ih =>
    have hgrows : m.store.Grows id [] store := m.store.grows_assign id value hassign
    exact ih.grows rfl hgrows
  | @execute m _ rounds s ih =>
    have hgrows := execute_grows rounds s m
    exact ih.grows hgrows.here hgrows.store
  | @executeIn m _ rounds scope body ih =>
    have hgrows := executeIn_grows rounds scope body m
    exact ih.grows hgrows.1 hgrows.2
  | interpret _ rounds program ih => exact ih.interpret rounds program
  | run _ rounds source ih => exact ih.run rounds source

end Machine

end Scriptlet
