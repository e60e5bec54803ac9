import Scriptlet.Proofs.Actions
import Scriptlet.Proofs.Scopes

/-!
# What a statement leaves as it was

A statement runs in the scope where it stands, and opens and leaves others on the way.  Whether it
ends, fails or is out of rounds, and however deep in blocks and loops that happens, it is the same
scope that is current afterwards, and the scopes from before are still there with their parents and
their names.  The only new names are those of its own declarations, and they are in that one scope.

This is true of every statement, also of those that no source has, in every store, also one whose
chains go round, and with every kind of sink.

* `Stmt.declared` : the names a statement may declare where it stands: its own, and those of its
  branches and loop bodies, but nothing inside of a block;
* `Store.Grows` : a store has the same scopes as before, and new names in one of them only;
* `execute_grows`, `executeAll_grows` : the run of a statement, by recursion on it;
* `execute_frame` : **the current scope is restored and the other scopes are framed**, for a
  statement and for statements that are executed in a given scope.
-/

namespace Scriptlet

/-! ### Growing stores -/

namespace Store

/-- One store has the scopes of another one, with their parents and names, and besides at most some
names in a scope. -/
structure Grows (id : ScopeId) (names : List String) (before after : Store) : Prop where
  /-- There are as many scopes as before. -/
  size : after.scopes.size = before.scopes.size
  /-- Each has the parent that it had. -/
  parent : ∀ other, after.parent? other = before.parent? other
  /-- A name that was bound is bound. -/
  kept : ∀ other name, (before.bound? other name).isSome → (after.bound? other name).isSome
  /-- A name that was not bound is one of the names and in the scope. -/
  gained : ∀ other name, (after.bound? other name).isSome →
    (before.bound? other name).isSome ∨ other = id ∧ name ∈ names

namespace Grows

variable {id other : ScopeId} {names names' : List String} {a b c : Store}

theorem refl (id : ScopeId) (names : List String) (a : Store) : a.Grows id names a :=
  ⟨rfl, fun _ => rfl, fun _ _ h => h, fun _ _ h => .inl h⟩

theorem trans (hab : a.Grows id names b) (hbc : b.Grows id names c) : a.Grows id names c := by
  refine ⟨hbc.size.trans hab.size, fun other => (hbc.parent other).trans (hab.parent other),
    fun other name h => hbc.kept other name (hab.kept other name h), fun other name h => ?_⟩
  rcases hbc.gained other name h with h | h
  · exact hab.gained other name h
  · exact .inr h

theorem mono (h : a.Grows id names b) (hsub : names ⊆ names') : a.Grows id names' b :=
  ⟨h.size, h.parent, h.kept, fun other name hb =>
    (h.gained other name hb).imp_right fun ⟨ho, hn⟩ => ⟨ho, hsub hn⟩⟩

theorem bound_iff (h : a.Grows id [] b) (other : ScopeId) (name : String) :
    (b.bound? other name).isSome ↔ (a.bound? other name).isSome := by
  refine ⟨fun hb => ?_, h.kept other name⟩
  rcases h.gained other name hb with hb | ⟨-, hname⟩
  · exact hb
  · cases hname

/-- Nothing is left of a scope that was opened and removed. -/
theorem drop {parent : Option ScopeId} (h : (a.add parent).Grows a.nextId names b) :
    a.Grows id [] b.drop := by
  have hsize : b.scopes.size - 1 = a.scopes.size := by rw [h.size, size_add]; rfl
  refine ⟨by rw [size_drop, hsize], fun other => ?_, fun other name hb => ?_,
    fun other name hb => ?_⟩
  · rw [parent?_drop, hsize]
    split
    · rename_i hlt
      rw [h.parent, parent?_add_of_lt _ _ _ hlt]
    · rename_i hge
      rw [parent?_of_size_le _ _ (Nat.le_of_not_lt hge)]
  · rw [bound?_drop, hsize, if_pos (lt_size_of_bound _ hb)]
    exact h.kept other name (by rwa [bound?_add])
  · rw [bound?_drop, hsize] at hb
    split at hb
    · -- what is left has been there before, so it is not the scope that has gained names
      rename_i hlt
      rcases h.gained other name hb with hb | ⟨ho, -⟩
      · exact .inl (by rwa [bound?_add] at hb)
      · exact absurd ho (Nat.ne_of_lt hlt)
    · cases hb

end Grows

variable (store : Store) (id : ScopeId) (name : String) (value : Value)

theorem grows_define : store.Grows id [name] (store.define id name value) := by
  by_cases hlt : id < store.scopes.size
  · refine ⟨size_define .., fun _ => parent?_define .., fun other found hb => ?_,
      fun other found hb => ?_⟩
    · rw [bound?_define _ _ _ _ _ hlt]
      split
      · rfl
      · exact hb
    · rw [bound?_define _ _ _ _ _ hlt] at hb
      split at hb
      · rename_i h
        exact .inr ⟨h.1, List.mem_singleton.2 h.2⟩
      · exact .inl hb
  · rw [define_of_size_le _ _ _ _ (Nat.le_of_not_lt hlt)]
    exact .refl ..

/-- A name that is bound is only given another value. -/
theorem grows_define_of_bound {names : List String} {home : ScopeId}
    (h : (store.bound? home name).isSome) : store.Grows id names (store.define home name value) := by
  have hgrows := store.grows_define home name value
  refine ⟨hgrows.size, hgrows.parent, hgrows.kept, fun other found hb => .inl ?_⟩
  rcases hgrows.gained other found hb with hb | ⟨rfl, hfound⟩
  · exact hb
  · rwa [List.mem_singleton.1 hfound]

theorem grows_assign {names : List String} {token : Token} {here : ScopeId} {store' : Store}
    (h : store.assign here token value = .ok store') : store.Grows id names store' := by
  unfold assign at h
  split at h
  · rename_i home hhome
    cases h
    exact grows_define_of_bound _ _ _ _ (resolve?_bound hhome)
  · cases h

end Store

/-! ### Expressions -/

/-- An expression changes values, and neither scopes nor names. -/
theorem eval_grows (here id : ScopeId) (names : List String) (e : Expr) :
    Keeps (Store.Grows id names) (eval here e) := by
  have hrefl : ∀ s : Store, s.Grows id names s := Store.Grows.refl id names
  induction e with
  | literal v => exact hrefl
  | grouping inner ih => exact ih
  | unary operator operand ih => exact .bind .trans ih fun _ => .ofExcept hrefl _
  | binary left operator right ihl ihr =>
    exact .bind .trans ihl fun _ => .bind .trans ihr fun _ => .ofExcept hrefl _
  | logical left operator right ihl ihr =>
    refine .bind .trans ihl fun a => ?_
    split
    · exact hrefl
    · exact ihr
  | reference name => exact .bind .trans hrefl fun _ => .ofExcept hrefl _
  | assign name value ih =>
    rw [eval_assign]
    refine .bind .trans ih fun v store => ?_
    unfold endState overwrite
    -- the one step that writes, and it finds its name bound
    cases h : store.assign here name v with
    | ok after => exact store.grows_assign id v h
    | error error => exact hrefl store

/-! ### Statements -/

namespace Stmt

/-- The names that a statement may declare in the scope where it stands.  A block has a scope of its
own for its declarations. -/
def declared : Stmt → List String
  | print _ => []
  | expression _ => []
  | var name _ => [name.lexeme]
  | block _ => []
  | branch _ yes none => yes.declared
  | branch _ yes (some no) => yes.declared ++ no.declared
  | loop _ body => body.declared
termination_by structural s => s

end Stmt

section

variable {ω : Type}

/-- A machine is in the same scope, and its store has grown there only. -/
structure Machine.Grows (names : List String) (before after : Machine ω) : Prop where
  /-- The current scope is the same. -/
  here : after.here = before.here
  /-- The store has grown in the current scope. -/
  store : before.store.Grows before.here names after.store

namespace Machine.Grows

variable {names names' : List String} {a b c : Machine ω}

theorem refl (names : List String) (a : Machine ω) : a.Grows names a := ⟨rfl, .refl ..⟩

theorem trans (hab : a.Grows names b) (hbc : b.Grows names c) : a.Grows names c :=
  ⟨hbc.here.trans hab.here, hab.store.trans (hab.here ▸ hbc.store)⟩

theorem mono (h : a.Grows names b) (hsub : names ⊆ names') : a.Grows names' b :=
  ⟨h.here, h.store.mono hsub⟩

end Machine.Grows

namespace Exec

variable {names : List String} {action : ExecOn ω Unit}

theorem evaluate_grows (e : Expr) : Keeps (Machine.Grows names) (evaluate e : ExecOn ω Value) := by
  intro m
  rw [endState_through (evaluate_eq e m)]
  exact ⟨rfl, eval_grows m.here m.here names e m.store⟩

theorem printLine_grows [Output ω] (v : Value) (line : Nat) :
    Keeps (Machine.Grows names) (printLine v line : ExecOn ω Unit) := by
  intro m
  rw [endState_through (printLine_eq v line m)]
  exact ⟨rfl, .refl ..⟩

theorem define_grows (name : String) (value : Value) :
    Keeps (Machine.Grows [name]) (define name value : ExecOn ω Unit) :=
  fun m => ⟨rfl, m.store.grows_define m.here name value⟩

theorem withinNew_grows (h : Keeps (Machine.Grows names) action) :
    Keeps (Machine.Grows []) (withinNew action) := by
  intro m
  have hinside := (h m.inner).store
  rw [endState_through (withinNew_eq action m)]
  exact ⟨rfl, hinside.drop⟩

/-- A loop does what its body does, however often. -/
theorem repeatWhile_grows (condition : Expr) (h : Keeps (Machine.Grows names) action) :
    ∀ rounds, Keeps (Machine.Grows names) (repeatWhile condition action rounds) := by
  intro rounds
  induction rounds with
  | zero => exact Machine.Grows.refl names
  | succ rounds ih =>
    refine .bind .trans (evaluate_grows condition) fun v => ?_
    split
    · exact .bind .trans h fun _ => ih
    · exact Machine.Grows.refl names

end Exec

open Exec

theorem Keeps.grows_mono {names names' : List String} {action : ExecOn ω Unit}
    (h : Keeps (Machine.Grows names) action) (hsub : names ⊆ names') :
    Keeps (Machine.Grows names') action :=
  fun m => (h m).mono hsub

variable [Output ω]

mutual

/-- A statement declares what it may declare, and does nothing else to the scopes there are. -/
theorem execute_grows (rounds : Nat) :
    ∀ s, Keeps (Machine.Grows s.declared) (execute rounds s : ExecOn ω Unit)
  | .print value => by
    exact .bind .trans (evaluate_grows value) fun v => printLine_grows _ _
  | .expression e => by
    exact .bind .trans (evaluate_grows e) fun v => Machine.Grows.refl []
  | .var name none => define_grows name.lexeme .nil
  | .var name (some init) => by
    exact .bind .trans (evaluate_grows init) fun v => define_grows name.lexeme v
  | .block body => withinNew_grows (executeAll_grows rounds body)
  | .branch condition yes none => by
    refine .bind .trans (evaluate_grows condition) fun v => ?_
    split
    · exact execute_grows rounds yes
    · exact Machine.Grows.refl _
  | .branch condition yes (some no) => by
    refine .bind .trans (evaluate_grows condition) fun v => ?_
    split
    · exact (execute_grows rounds yes).grows_mono (List.subset_append_left ..)
    · exact (execute_grows rounds no).grows_mono (List.subset_append_right ..)
  | .loop condition body => repeatWhile_grows condition (execute_grows rounds body) rounds
termination_by structural s => s

theorem executeAll_grows (rounds : Nat) :
    ∀ body, Keeps (Machine.Grows (body.flatMap Stmt.declared))
      (executeAll rounds body : ExecOn ω Unit)
  | [] => Machine.Grows.refl _
  | s :: rest => by
    rw [List.flatMap_cons]
    exact .bind .trans ((execute_grows rounds s).grows_mono (List.subset_append_left ..)) fun _ =>
      (executeAll_grows rounds rest).grows_mono (List.subset_append_right ..)
termination_by structural body => body

end

theorem executeIn_grows (rounds : Nat) (scope : ScopeId) (body : List Stmt) (m : Machine ω) :
    (endState (executeIn rounds scope body) m).here = m.here ∧
      m.store.Grows scope (body.flatMap Stmt.declared)
        (endState (executeIn rounds scope body) m).store := by
  have hinside := (executeAll_grows rounds body { m with here := scope }).store
  rw [executeIn, endState_through (within_eq scope _ m)]
  exact ⟨rfl, hinside⟩

/-- A program does to the scopes what its statements do. -/
theorem interpret_grows (rounds : Nat) (program : List Stmt) :
    Keeps (Machine.Grows (program.flatMap Stmt.declared))
      (interpret rounds program : ExecOn ω Unit) := by
  intro m
  have hprogram := executeAll_grows rounds program m
  obtain ⟨sink, hend⟩ := endState_flushing (executeAll rounds program) m
  rw [interpret_eq, hend]
  exact ⟨hprogram.here, hprogram.store⟩

/-- **The current scope is restored, and the scopes there were are framed.**  In every state, and
however the execution ends, the scope that was current is current again; every scope has its parent
and its names, and only the current scope has new ones, which the statement declares outside of any
block.  A block adds no name to any scope.  Statements that are executed in a given scope do the
same to that scope, and leave the current one as it was. -/
theorem execute_frame (rounds : Nat) (m : Machine ω) :
    (∀ s : Stmt,
      (endState (execute rounds s) m).here = m.here ∧
        m.store.Grows m.here s.declared (endState (execute rounds s) m).store) ∧
    (∀ (body : List Stmt) (id : ScopeId) (name : String),
      ((endState (execute rounds (.block body)) m).store.bound? id name).isSome ↔
        (m.store.bound? id name).isSome) ∧
    ∀ (scope : ScopeId) (body : List Stmt),
      (endState (executeIn rounds scope body) m).here = m.here ∧
        m.store.Grows scope (body.flatMap Stmt.declared)
          (endState (executeIn rounds scope body) m).store := by
  refine ⟨fun s => ?_, fun body id name => ?_, fun scope body => ?_⟩
  · have h := execute_grows rounds s m
    exact ⟨h.here, h.store⟩
  · exact (execute_grows rounds (.block body) m).store.bound_iff id name
  · exact executeIn_grows rounds scope body m

end

end Scriptlet
