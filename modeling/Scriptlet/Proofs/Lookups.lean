import Scriptlet.Proofs.Moments
import Scriptlet.Proofs.Reachable

/-!
# Lookups end

A variable is looked for in one scope after the other, and only the shape of the chain makes that
come to an end.  Reading and assigning go along the chain each in its own way.  An assignment holds
every scope it has come to until it is done, and no scope can be held twice: a chain that came back
to one of its scopes would not only be endless but block the assignment.

In a machine that can be reached every scope is younger than its parent, and that is the measure that
each step of a lookup brings down.

* `Store.reading`, `Store.assigning` : the two ways, in so many steps and with the scopes held;
* `Store.Linked.reading`, `Store.Linked.assigning` : **along a chain both come to their end**, with
  what `Store.get` and `Store.assign` give;
* `Store.Traversable` : chains end and have no scope twice, and lookups end and are never blocked;
* `Stmt.Meets.wellFormed` : scopes form chains whenever a variable is met, also in the middle of a
  run;
* `reachable_traversable` : **the scopes of a reachable machine can be traversed**, at rest and at
  each moment of a run.
-/

namespace Scriptlet

/-- How a search along a chain comes out. -/
inductive Search (α : Type) where
  /-- It is over. -/
  | ended (answer : α)
  /-- It came to a scope that it holds already. -/
  | blocked (id : ScopeId)
  /-- It is still on its way. -/
  | unfinished

namespace Store

/-- Reads a variable, going from scope to scope for at most so many steps. -/
def reading (store : Store) (name : Token) : Nat → ScopeId → Search (Except RuntimeError Value)
  | 0, _ => .unfinished
  | steps + 1, id =>
    match store.bound? id name.lexeme with
    | some v => .ended (.ok v)
    | none =>
      match store.parent? id with
      | some parent => reading store name steps parent
      | none => .ended (.error (undefined name))

/-- Assigns a variable, going from scope to scope for at most so many steps.  Each scope is taken hold
of before it is looked at, and the ones before it are still held then. -/
def assigning (store : Store) (name : Token) (v : Value) :
    Nat → List ScopeId → ScopeId → Search (EStateM.Result RuntimeError Store Value)
  | 0, _, _ => .unfinished
  | steps + 1, held, id =>
    if id ∈ held then .blocked id
    else if (store.bound? id name.lexeme).isSome then
      .ended (.ok v (store.define id name.lexeme v))
    else
      match store.parent? id with
      | some parent => assigning store name v steps (id :: held) parent
      | none => .ended (.error (undefined name) store)

/-! ### One step of a lookup -/

namespace Linked

variable {store : Store} {id parent : ScopeId} {ids : List ScopeId} {name : Token} {v : Value}

theorem resolve?_eq (h : store.Linked id ids) (name : String) :
    store.resolve? id name =
      if (store.bound? id name).isSome then some id
      else (store.parent? id).bind (store.resolve? · name) := by
  rw [resolve?, h.chain]
  cases h with
  | root hlt hroot =>
    rw [hroot, List.find?_cons]
    cases (store.bound? id name).isSome <;> rfl
  | @child _ parent ids hlt hparent holder h =>
    rw [hparent, List.find?_cons, Option.bind_some, resolve?, h.chain]
    cases (store.bound? id name).isSome <;> rfl

section Get

variable (h : store.Linked id ids)
include h

theorem get_of_bound (hb : store.bound? id name.lexeme = some v) : store.get id name = .ok v := by
  simp [get, h.resolve?_eq, hb]

theorem get_of_parent (hb : store.bound? id name.lexeme = none)
    (hparent : store.parent? id = some parent) : store.get id name = store.get parent name := by
  simp [get, h.resolve?_eq, hb, hparent]

theorem get_of_root (hb : store.bound? id name.lexeme = none) (hroot : store.parent? id = none) :
    store.get id name = .error (undefined name) := by
  simp [get, h.resolve?_eq, hb, hroot]

theorem overwrite_of_bound (hb : (store.bound? id name.lexeme).isSome = true) :
    overwrite id name v store = .ok v (store.define id name.lexeme v) := by
  simp [overwrite, assign, h.resolve?_eq, hb]

theorem overwrite_of_parent (hb : (store.bound? id name.lexeme).isSome = false)
    (hparent : store.parent? id = some parent) :
    overwrite id name v store = overwrite parent name v store := by
  simp [overwrite, assign, h.resolve?_eq, hb, hparent]

theorem overwrite_of_root (hb : (store.bound? id name.lexeme).isSome = false)
    (hroot : store.parent? id = none) :
    overwrite id name v store = .error (undefined name) store := by
  simp [overwrite, assign, h.resolve?_eq, hb, hroot]

end Get

/-! ### Whole lookups -/

/-- Each scope on a chain is older than the one before it, so there are not many. -/
theorem length_le (h : store.Linked id ids) : ids.length ≤ id + 1 := by
  induction h with
  | root => simp
  | child _ _ holder _ ih => exact Nat.succ_le_succ (Nat.le_trans ih holder)

/-- **Reading ends**, at the latest where the chain does. -/
theorem reading (h : store.Linked id ids) (name : Token) :
    ∀ steps, ids.length ≤ steps → store.reading name steps id = .ended (store.get id name) := by
  induction h with
  | @root id hlt hroot =>
    intro steps hsteps
    have hl : store.Linked id [id] := .root hlt hroot
    obtain ⟨steps, rfl⟩ := Nat.exists_eq_add_of_le' hsteps
    cases hb : store.bound? id name.lexeme with
    | some v => simp only [List.length_singleton, Store.reading, hb, hl.get_of_bound hb]
    | none => simp only [List.length_singleton, Store.reading, hb, hroot, hl.get_of_root hb hroot]
  | @child id parent ids hlt hparent holder h ih =>
    intro steps hsteps
    have hl : store.Linked id (id :: ids) := .child hlt hparent holder h
    cases steps with
    | zero => cases hsteps
    | succ steps =>
      have hrest := ih steps (Nat.le_of_succ_le_succ hsteps)
      cases hb : store.bound? id name.lexeme with
      | some v => simp only [Store.reading, hb, hl.get_of_bound hb]
      | none => simp only [Store.reading, hb, hparent, hrest, hl.get_of_parent hb hparent]

/-- **Assigning ends**, at the latest where the chain does, and whatever is held is not on the way. -/
theorem assigning (h : store.Linked id ids) (name : Token) (v : Value) :
    ∀ steps held, (∀ other ∈ ids, other ∉ held) →
      store.assigning name v steps held id = .ended (overwrite id name v store) ∨
        steps < ids.length ∧ store.assigning name v steps held id = .unfinished := by
  induction h with
  | @root id hlt hroot =>
    intro steps held hfree
    have hl : store.Linked id [id] := .root hlt hroot
    cases steps with
    | zero => exact .inr ⟨Nat.zero_lt_one, rfl⟩
    | succ steps =>
      refine .inl ?_
      rw [Store.assigning, if_neg (hfree id List.mem_cons_self)]
      cases hb : (store.bound? id name.lexeme).isSome with
      | true => rw [hl.overwrite_of_bound hb]; rfl
      | false => rw [hl.overwrite_of_root hb hroot, hroot]; rfl
  | @child id parent ids hlt hparent holder h ih =>
    intro steps held hfree
    have hl : store.Linked id (id :: ids) := .child hlt hparent holder h
    cases steps with
    | zero => exact .inr ⟨Nat.succ_pos _, rfl⟩
    | succ steps =>
      rw [Store.assigning, if_neg (hfree id List.mem_cons_self)]
      cases hb : (store.bound? id name.lexeme).isSome with
      | true => exact .inl (by rw [hl.overwrite_of_bound hb]; rfl)
      | false =>
        -- the scope at hand is held from now on, and it is not met again further out
        have hrest : ∀ other ∈ ids, other ∉ id :: held := by
          intro other hother hheld
          rcases List.mem_cons.1 hheld with rfl | hheld
          · exact absurd (h.le_of_mem other hother) (Nat.not_le_of_lt holder)
          · exact hfree other (List.mem_cons_of_mem _ hother) hheld
        rw [hl.overwrite_of_parent hb hparent, hparent, List.length_cons, Nat.succ_lt_succ_iff]
        exact ih steps (id :: held) hrest

end Linked

/-! ### Stores without a circle -/

/-- From every scope a chain leads to one without parent, which no scope is on twice.  A variable is
read in no more steps than there are scopes, and so it is assigned, without ever taking hold of a
scope that is held already. -/
structure Traversable (store : Store) : Prop where
  /-- Chains end, and have no scope twice. -/
  chains : ∀ id < store.scopes.size, ∃ ids, store.Linked id ids ∧ ids.Nodup
  /-- Reading ends. -/
  reads : ∀ id < store.scopes.size, ∀ name steps, store.scopes.size ≤ steps →
    store.reading name steps id = .ended (store.get id name)
  /-- Assigning ends. -/
  assigns : ∀ id < store.scopes.size, ∀ name v steps, store.scopes.size ≤ steps →
    store.assigning name v steps [] id = .ended (overwrite id name v store)
  /-- Assigning is not blocked by what it holds itself. -/
  unblocked : ∀ id < store.scopes.size, ∀ name v steps other,
    store.assigning name v steps [] id ≠ .blocked other

theorem Ordered.traversable {store : Store} (h : store.Ordered) : store.Traversable where
  chains id hid := by
    obtain ⟨ids, hids⟩ := h.exists_linked hid
    exact ⟨ids, hids, hids.nodup⟩
  reads id hid name steps hsteps := by
    obtain ⟨ids, hids⟩ := h.exists_linked hid
    have hlength := hids.length_le
    exact hids.reading name steps (by omega)
  assigns id hid name v steps hsteps := by
    obtain ⟨ids, hids⟩ := h.exists_linked hid
    have hlength := hids.length_le
    rcases hids.assigning name v steps [] (by simp) with hend | ⟨hshort, -⟩
    · exact hend
    · omega
  unblocked id hid name v steps other hblocked := by
    obtain ⟨ids, hids⟩ := h.exists_linked hid
    rcases hids.assigning name v steps [] (by simp) with hend | ⟨-, hend⟩
    · rw [hend] at hblocked; cases hblocked
    · rw [hend] at hblocked; cases hblocked

end Store

/-! ### Moments of a run -/

section Moments

variable {ω : Type} [Output ω] {rounds : Nat} {m m' : Machine ω}

/-- **Scopes form chains whenever a variable is met**, however deep in blocks and loops. -/
theorem Stmt.Meets.wellFormed {s : Stmt} {blocks place : Blocks} {name : Token}
    (hmeets : s.Meets rounds blocks m name place m') (h : m.WellFormed) : m'.WellFormed := by
  induction hmeets with
  | own hown hexpr => exact h.grows rfl (hexpr.grows : Store.Grows 0 [] _ _)
  | block hbefore _ ih => exact ih (h.inner.step (executeAll_grows _ _ _) hbefore)
  | yes hcondition _ _ ih => exact ih (h.evaluate_ok hcondition)
  | no hcondition _ _ ih => exact ih (h.evaluate_ok hcondition)
  | body hcondition _ _ ih => exact ih (h.evaluate_ok hcondition)
  | again hcondition _ hbody _ ih =>
    exact ih ((h.evaluate_ok hcondition).step (execute_grows _ _ _) hbody)

end Moments

/-- **The scopes of a reachable machine can be traversed.**  From every scope the chain of parents
ends and comes to no scope twice; so reading and assigning a variable end, for every name, and an
assignment never comes to a scope that it holds.  That is so between operations, and whenever
statements that are executed in some scope come to read or to assign a variable. -/
theorem reachable_traversable {ω : Type} [Output ω] {m : Machine ω} (h : m.Reachable) :
    m.store.Traversable ∧
      ∀ rounds scope body blocks name place after, scope < m.store.scopes.size →
        MeetsIn rounds blocks body { m with here := scope } name place after →
        after.here < after.store.scopes.size ∧ after.store.Traversable := by
  have hm := h.wellFormed
  refine ⟨hm.ordered.traversable, ?_⟩
  rintro rounds scope body blocks name place after hscope
    ⟨before, s, behind, between, -, hbefore, hmeets⟩
  have hstart : Machine.WellFormed { m with here := scope } := ⟨hscope, hm.ordered⟩
  have hafter := hmeets.wellFormed (hstart.step (executeAll_grows _ _ _) hbefore)
  exact ⟨hafter.here, hafter.ordered.traversable⟩

/-- A machine with a scope under a scope under the global one. -/
def nestedScopes : Machine :=
  { Machine.new {} with store := ((Machine.new ({} : Sink)).store.add (some 0)).add (some 1) }

/-- Executed in the innermost scope, a block that mentions a variable makes a fourth one, from which
the variable is assigned in four steps. -/
theorem nestedScopes_traversable :
    nestedScopes.Reachable ∧ ∃ name after,
      MeetsIn 1 [] [.block [.expression (.reference name)]] { nestedScopes with here := 2 } name [[]]
        after ∧
      ∀ v, after.store.assigning name v 4 [] 3 = .ended (overwrite 3 name v after.store) := by
  have hreachable : nestedScopes.Reachable :=
    ((Machine.Reachable.new ({} : Sink)).child 0 (by decide)).child 1 (by decide)
  let name : Token := ⟨.identifier "a", "a", 1⟩
  have hmeets : ∃ after, MeetsIn 1 [] [.block [.expression (.reference name)]]
      { nestedScopes with here := 2 } name [[]] after ∧ after.store.scopes.size = 4 :=
    ⟨_, ⟨[], .block [.expression (.reference name)], [], _, rfl, rfl,
      @Stmt.Meets.block _ _ _ _ [] (.expression (.reference name)) [] _ _ _ _ _ rfl
        (.own rfl .reference)⟩, rfl⟩
  obtain ⟨after, hmeets, hsize⟩ := hmeets
  obtain ⟨-, hafter⟩ := (reachable_traversable hreachable).2 1 2 _ _ name _ after (by decide) hmeets
  refine ⟨hreachable, name, after, hmeets, fun v => ?_⟩
  exact hafter.assigns 3 (by omega) name v 4 (by omega)

end Scriptlet
