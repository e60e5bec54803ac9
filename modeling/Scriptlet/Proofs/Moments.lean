import Scriptlet.Proofs.Frame
import Scriptlet.Proofs.Resolved
import Scriptlet.Proofs.WellKinded
import Mathlib.Data.List.Forall2

/-!
# The scopes at each moment of a run

Scopes are opened and removed while a program runs, and names are looked for along whatever chain of
scopes there is.  For the programs that parsing builds, the chain can be read off the text: at every
moment at which a variable is read or assigned, it has one scope for each block around the variable
and then the global scope, and each of the scopes binds the names that were declared in its block
before the place of the variable, no more and no fewer.

* `Expr.Meets`, `Stmt.Meets` : the moments of a run at which a variable is read or assigned, with
  the blocks around it;
* `Store.Nested`, `Machine.At` : the scopes on a chain are those of given blocks;
* `Store.Nested.resolve?` : a name is then found where its hops lead;
* `execute_at`, `executeAll_at` : what a statement does to the scopes of the blocks around it;
* `Stmt.Meets.at` : **at each moment the scopes are those of the blocks around the variable.**
-/

namespace Scriptlet

/-! ### Moments -/

/-- The evaluation of an expression comes to a variable that is read or assigned, in some store.  An
assignment is met when its evaluation starts and again when its value is there. -/
inductive Expr.Meets (here : ScopeId) : Expr → Store → Token → Store → Prop
  | reference {name store} : Meets here (.reference name) store name store
  | assignStart {name value store} : Meets here (.assign name value) store name store
  | assign {name value store v after} (h : eval here value store = .ok v after) :
    Meets here (.assign name value) store name after
  | value {name value store other after} (h : Meets here value store other after) :
    Meets here (.assign name value) store other after
  | grouping {inner store name after} (h : Meets here inner store name after) :
    Meets here (.grouping inner) store name after
  | unary {operator operand store name after} (h : Meets here operand store name after) :
    Meets here (.unary operator operand) store name after
  | binaryLeft {left operator right store name after} (h : Meets here left store name after) :
    Meets here (.binary left operator right) store name after
  | binaryRight {left operator right store a between name after}
    (hleft : eval here left store = .ok a between) (h : Meets here right between name after) :
    Meets here (.binary left operator right) store name after
  | logicalLeft {left operator right store name after} (h : Meets here left store name after) :
    Meets here (.logical left operator right) store name after
  | logicalRight {left operator right store a between name after}
    (hleft : eval here left store = .ok a between) (hopen : decides operator a = false)
    (h : Meets here right between name after) :
    Meets here (.logical left operator right) store name after

/-- The execution of a statement at a place comes to a variable that is read or assigned, with
certain blocks around it, in some state. -/
inductive Stmt.Meets {ω : Type} [Output ω] (rounds : Nat) :
    Blocks → Stmt → Machine ω → Token → Blocks → Machine ω → Prop
  /-- In the expression of the statement itself. -/
  | own {blocks s e m name store} (hown : s.expr? = some e)
    (h : e.Meets m.here m.store name store) :
    Meets rounds blocks s m name blocks { m with store }
  /-- In a child of a block, once the children before it are done. -/
  | block {blocks before s behind m between name place after}
    (hbefore : executeAll rounds before m.inner = .ok () between)
    (h : Meets rounds (before.flatMap Stmt.varNames :: blocks) s between name place after) :
    Meets rounds blocks (.block (before ++ s :: behind)) m name place after
  /-- In the first branch. -/
  | yes {blocks condition yes no m v between name place after}
    (hcondition : Exec.evaluate condition m = .ok v between) (htrue : v.truthy = true)
    (h : Meets rounds blocks yes between name place after) :
    Meets rounds blocks (.branch condition yes no) m name place after
  /-- In the second branch. -/
  | no {blocks condition yes no m v between name place after}
    (hcondition : Exec.evaluate condition m = .ok v between) (hfalse : v.truthy = false)
    (h : Meets rounds blocks no between name place after) :
    Meets rounds blocks (.branch condition yes (some no)) m name place after
  /-- In the body of a loop. -/
  | body {blocks condition body m v between name place after}
    (hcondition : Exec.evaluate condition m = .ok v between) (htrue : v.truthy = true)
    (h : Meets rounds blocks body between name place after) :
    Meets rounds blocks (.loop condition body) m name place after
  /-- In a loop, after a round of it. -/
  | again {blocks condition body m v between next name place after}
    (hcondition : Exec.evaluate condition m = .ok v between) (htrue : v.truthy = true)
    (hbody : execute rounds body between = .ok () next)
    (h : Meets rounds blocks (.loop condition body) next name place after) :
    Meets rounds blocks (.loop condition body) m name place after

/-- The execution of statements comes to a variable: in one of them, once those before it are
done. -/
def MeetsIn {ω : Type} [Output ω] (rounds : Nat) (blocks : Blocks) (body : List Stmt)
    (m : Machine ω) (name : Token) (place : Blocks) (after : Machine ω) : Prop :=
  ∃ before s behind between, body = before ++ s :: behind ∧
    executeAll rounds before m = .ok () between ∧
    s.Meets rounds (blocks.declare (before.flatMap Stmt.varNames)) between name place after

/-! ### The scopes of blocks -/

namespace Store

/-- The chain of a scope has a scope for each of the blocks, which binds the names declared there,
and then the global scope. -/
inductive Nested (store : Store) (global : ScopeId) : Blocks → ScopeId → List ScopeId → Prop
  | global (hlt : global < store.scopes.size) (hroot : store.parent? global = none) :
    Nested store global [] global []
  | block {names blocks id parent scopes} (hlt : id < store.scopes.size)
    (hbinds : ∀ name, (store.bound? id name).isSome ↔ name ∈ names)
    (hparent : store.parent? id = some parent) (holder : parent < id)
    (h : Nested store global blocks parent scopes) :
    Nested store global (names :: blocks) id (id :: scopes)

namespace Nested

variable {store after : Store} {global id : ScopeId} {blocks : Blocks} {scopes : List ScopeId}

theorem lt_size (h : store.Nested global blocks id scopes) : id < store.scopes.size := by
  cases h with
  | global hlt => exact hlt
  | block hlt => exact hlt

/-- Only the scopes up to the one at hand count. -/
theorem congr (h : store.Nested global blocks id scopes)
    (hsize : store.scopes.size ≤ after.scopes.size)
    (hparent : ∀ other ≤ id, after.parent? other = store.parent? other)
    (hbound : ∀ other ≤ id, ∀ name,
      (after.bound? other name).isSome ↔ (store.bound? other name).isSome) :
    after.Nested global blocks id scopes := by
  induction h with
  | global hlt hroot =>
    exact .global (Nat.lt_of_lt_of_le hlt hsize) ((hparent _ (Nat.le_refl _)).trans hroot)
  | block hlt hbinds hp holder _ ih =>
    refine .block (Nat.lt_of_lt_of_le hlt hsize)
      (fun name => (hbound _ (Nat.le_refl _) name).trans (hbinds name))
      ((hparent _ (Nat.le_refl _)).trans hp) holder (ih ?_ ?_)
    · exact fun other hother => hparent other (Nat.le_trans hother (Nat.le_of_lt holder))
    · exact fun other hother => hbound other (Nat.le_trans hother (Nat.le_of_lt holder))

theorem grows (h : store.Nested global blocks id scopes) {other : ScopeId}
    (hgrows : store.Grows other [] after) : after.Nested global blocks id scopes := by
  exact h.congr (Nat.le_of_eq hgrows.size.symm) (fun other _ => hgrows.parent other)
    fun other _ name => hgrows.bound_iff other name

/-- A name declared where a block is at is one more name of the block. -/
theorem declare (h : store.Nested global blocks id scopes) {name : String}
    (hgrows : store.Grows id [name] after) (hdone : (after.bound? id name).isSome) :
    after.Nested global (blocks.declare [name]) id scopes := by
  cases h with
  | global hlt hroot =>
    exact .global (hgrows.size.symm ▸ hlt) ((hgrows.parent _).trans hroot)
  | @block names blocks _ parent scopes hlt hbinds hparent holder h =>
    refine .block (hgrows.size.symm ▸ hlt) (fun found => ?_)
      ((hgrows.parent _).trans hparent) holder ?_
    · rw [List.mem_append, List.mem_singleton, ← hbinds found]
      constructor
      · intro hb
        exact (hgrows.gained id found hb).imp_right fun h => List.mem_singleton.1 h.2
      · rintro (hb | rfl)
        · exact hgrows.kept id found hb
        · exact hdone
    · -- the scopes further out are older, and so they are not the one that has grown
      refine h.congr (Nat.le_of_eq hgrows.size.symm) (fun other _ => hgrows.parent other) ?_
      intro other hother found
      refine ⟨fun hb => ?_, hgrows.kept other found⟩
      rcases hgrows.gained other found hb with hb | ⟨rfl, -⟩
      · exact hb
      · exact absurd holder (Nat.not_lt_of_le hother)

theorem add (h : store.Nested global blocks id scopes) :
    (store.add (some id)).Nested global ([] :: blocks) store.nextId (store.nextId :: scopes) := by
  have hlt := h.lt_size
  refine .block (by rw [size_add]; exact Nat.lt_succ_self _) (fun name => ?_)
    (by rw [parent?_add, if_pos rfl]) hlt ?_
  · have hempty : store.bound? store.nextId name = none :=
      bound?_of_size_le _ _ _ (Nat.le_refl _)
    rw [bound?_add, hempty]
    simp
  · refine h.congr (by rw [size_add]; exact Nat.le_succ _) (fun other hother => ?_)
      (fun other _ name => by rw [bound?_add])
    exact parent?_add_of_lt _ _ _ (Nat.lt_of_le_of_lt hother hlt)

theorem linked (h : store.Nested global blocks id scopes) :
    store.Linked id (scopes ++ [global]) := by
  induction h with
  | global hlt hroot => exact .root hlt hroot
  | block hlt _ hparent holder _ ih => exact .child hlt hparent holder ih

theorem chain (h : store.Nested global blocks id scopes) :
    store.chain id = scopes ++ [global] :=
  h.linked.chain

theorem binds (h : store.Nested global blocks id scopes) :
    List.Forall₂ (fun scope names => ∀ name, (store.bound? scope name).isSome ↔ name ∈ names)
      scopes blocks := by
  induction h with
  | global => exact .nil
  | block hlt hbinds hparent holder _ ih => exact .cons hbinds ih

theorem climb (h : store.Nested global blocks id scopes) :
    ∀ hops, store.climb hops id = (scopes ++ [global])[hops]? := by
  induction h with
  | global hlt hroot =>
    intro hops
    cases hops with
    | zero => rfl
    | succ hops => rw [Store.climb, hroot]; rfl
  | block hlt hbinds hparent holder _ ih =>
    intro hops
    cases hops with
    | zero => rfl
    | succ hops => rw [Store.climb, hparent]; exact ih hops

/-- **Names are found where the hops lead**, if they are bound there at all. -/
theorem resolve? (h : store.Nested global blocks id scopes) (name : String) :
    store.resolve? id name =
      ((scopes ++ [global])[blocks.hops name]?).filter fun home =>
        (store.bound? home name).isSome := by
  rw [Store.resolve?, h.chain]
  induction h with
  | global =>
    show [global].find? _ = (some global).filter _
    cases hb : (store.bound? global name).isSome <;> simp [Option.filter, hb]
  | @block names blocks id parent scopes hlt hbinds hparent holder h ih =>
    by_cases hname : name ∈ names
    · have hhops : Blocks.hops (names :: blocks) name = 0 := by
        simp [Blocks.hops, List.findIdx_cons, hname]
      have hb := (hbinds name).2 hname
      -- no hops lead to the innermost scope, and the search ends there
      rw [hhops, List.cons_append, List.find?_cons, hb, List.getElem?_cons_zero, Option.filter, hb]
      rfl
    · have hhops : Blocks.hops (names :: blocks) name = Blocks.hops blocks name + 1 := by
        simp [Blocks.hops, List.findIdx_cons, hname]
      have hb : (store.bound? id name).isSome = false := by
        rw [Bool.eq_false_iff]
        exact fun hb => hname ((hbinds name).1 hb)
      -- the search passes this scope, and so do the hops
      rw [hhops, List.cons_append, List.find?_cons, hb]
      exact ih

/-- There is a scope where the hops lead. -/
theorem exists_home (h : store.Nested global blocks id scopes) (name : String) :
    ∃ home, (scopes ++ [global])[blocks.hops name]? = some home := by
  have hlt : blocks.hops name < (scopes ++ [global]).length := by
    have hle := blocks.hops_le name
    rw [List.length_append, h.binds.length_eq]
    exact Nat.lt_succ_of_le hle
  exact ⟨_, List.getElem?_eq_getElem hlt⟩

theorem get (h : store.Nested global blocks id scopes) {name : Token} {home : ScopeId}
    (hhome : (scopes ++ [global])[blocks.hops name.lexeme]? = some home) :
    store.get id name = store.getIn home name := by
  rw [Store.get, h.resolve?, hhome, getIn, Option.filter]
  cases hb : store.bound? home name.lexeme with
  | none => simp
  | some value => simp [hb]

theorem assign (h : store.Nested global blocks id scopes) {name : Token} {home : ScopeId}
    (hhome : (scopes ++ [global])[blocks.hops name.lexeme]? = some home) (value : Value) :
    store.assign id name value = store.assignIn home name value := by
  rw [Store.assign, h.resolve?, hhome, assignIn, Option.filter]
  cases hb : (store.bound? home name.lexeme).isSome <;> simp

end Nested

end Store

/-! ### The scopes at each moment -/

theorem Expr.Meets.grows {here id : ScopeId} {e : Expr} {store after : Store} {name : Token}
    (h : e.Meets here store name after) : store.Grows id [] after := by
  have hok : ∀ {e : Expr} {v : Value} {a b : Store}, Scriptlet.eval here e a = .ok v b →
      a.Grows id [] b := by
    intro e v a b heval
    have hgrows := eval_grows here id [] e a
    rwa [endState_of_ok heval] at hgrows
  induction h with
  | reference => exact .refl ..
  | assignStart => exact .refl ..
  | assign heval => exact hok heval
  | value _ ih => exact ih
  | grouping _ ih => exact ih
  | unary _ ih => exact ih
  | binaryLeft _ ih => exact ih
  | binaryRight hleft _ ih => exact (hok hleft).trans ih
  | logicalLeft _ ih => exact ih
  | logicalRight hleft _ _ ih => exact (hok hleft).trans ih

namespace Stmt

/-- A statement that may stand as a branch or a loop body declares nothing where it stands. -/
theorem WellPlaced.declared_eq_nil : ∀ {s : Stmt}, s.WellPlaced → s.declared = []
  | .print _, _ => rfl
  | .expression _, _ => rfl
  | .block _, _ => rfl
  | .branch _ yes none, ⟨_, _, hyes⟩ => WellPlaced.declared_eq_nil (s := yes) hyes
  | .branch _ yes (some no), ⟨_, _, hyes, hno⟩ => by
    rw [declared, WellPlaced.declared_eq_nil (s := yes) hyes,
      WellPlaced.declared_eq_nil (s := no) hno]
    rfl
  | .loop _ body, ⟨_, _, hbody⟩ => WellPlaced.declared_eq_nil (s := body) hbody

end Stmt

section Nested

variable {ω : Type} {rounds : Nat} {global : ScopeId} {blocks : Blocks} {scopes : List ScopeId}
  {m m' : Machine ω}

/-- The scopes of a machine are those of blocks around a place. -/
def Machine.At (m : Machine ω) (global : ScopeId) (blocks : Blocks) (scopes : List ScopeId) :
    Prop :=
  m.store.Nested global blocks m.here scopes

theorem Machine.At.inner (h : m.At global blocks scopes) :
    m.inner.At global ([] :: blocks) (m.store.nextId :: scopes) :=
  Store.Nested.add h

theorem Machine.At.grows (h : m.At global blocks scopes) (hgrows : m.Grows [] m') :
    m'.At global blocks scopes := by
  unfold Machine.At
  rw [hgrows.here]
  exact Store.Nested.grows h hgrows.store

theorem evaluate_at {e : Expr} {v : Value} (h : m.At global blocks scopes)
    (heval : Exec.evaluate e m = .ok v m') : m'.At global blocks scopes := by
  have hgrows : m.Grows [] _ := Exec.evaluate_grows e m
  rw [endState_of_ok heval] at hgrows
  exact h.grows hgrows

theorem define_at {name : String} {value : Value} (h : m.At global blocks scopes)
    (hrun : Exec.define name value m = .ok () m') :
    m'.At global (blocks.declare [name]) scopes := by
  cases hrun
  refine Store.Nested.declare h (Store.grows_define ..) ?_
  rw [Store.bound?_define _ _ _ _ _ h.lt_size, if_pos ⟨rfl, rfl⟩]
  rfl

variable [Output ω]

theorem execute_at_of_wellPlaced {s : Stmt} (h : m.At global blocks scopes) (hs : s.WellPlaced)
    (hrun : execute rounds s m = .ok () m') : m'.At global blocks scopes := by
  have hgrows := execute_grows rounds s m
  rw [endState_of_ok hrun, hs.declared_eq_nil] at hgrows
  exact h.grows hgrows

/-- A statement that is done has declared what it declares. -/
theorem execute_at {s : Stmt} (h : m.At global blocks scopes) (hs : s.WellKinded)
    (hrun : execute rounds s m = .ok () m') : m'.At global (blocks.declare s.varNames) scopes := by
  cases hvar : s.isVar with
  | true =>
    cases s with
    | var name init =>
      cases init with
      | none => exact define_at h hrun
      | some init =>
        obtain ⟨v, between, heval, hdefine⟩ := bind_eq_ok hrun
        exact define_at (evaluate_at h heval) hdefine
    | _ => cases hvar
  | false =>
    -- any other statement that parsing builds declares nothing here, whatever is inside of it
    have hnames : s.varNames = [] := by cases s <;> first | rfl | cases hvar
    rw [hnames, Blocks.declare_nil]
    exact execute_at_of_wellPlaced h ⟨hvar, hs⟩ hrun

theorem executeAll_at : ∀ {body : List Stmt} {blocks : Blocks} {m m' : Machine ω},
    m.At global blocks scopes → (∀ s ∈ body, s.WellKinded) →
    executeAll rounds body m = .ok () m' →
    m'.At global (blocks.declare (body.flatMap Stmt.varNames)) scopes := by
  intro body
  induction body with
  | nil =>
    intro blocks m m' h _ hrun
    cases hrun
    rwa [List.flatMap_nil, Blocks.declare_nil]
  | cons s rest ih =>
    intro blocks m m' h hbody hrun
    obtain ⟨⟨⟩, between, hs, hrest⟩ := bind_eq_ok hrun
    have hbetween := execute_at h (hbody s List.mem_cons_self) hs
    rw [List.flatMap_cons, Blocks.declare_append]
    exact ih hbetween (fun t ht => hbody t (List.mem_cons_of_mem _ ht)) hrest

/-- **At each moment the scopes are those of the blocks around the variable.** -/
theorem Stmt.Meets.at {s : Stmt} {name : Token} {place : Blocks}
    (hmeets : s.Meets rounds blocks m name place m') :
    ∀ {scopes : List ScopeId}, m.At global blocks scopes → s.WellKinded →
      ∃ scopes', m'.At global place scopes' := by
  induction hmeets with
  | own hown h =>
    intro scopes hat _
    exact ⟨scopes, Store.Nested.grows hat (h.grows : Store.Grows 0 [] _ _)⟩
  | block hbefore _ ih =>
    intro scopes hat hs
    have hbody := Stmt.allWellKinded_iff.1 hs
    have hbetween := executeAll_at hat.inner (fun t ht => hbody t (by simp [ht])) hbefore
    exact ih hbetween (hbody _ (by simp))
  | @yes _ _ _ no _ _ _ _ _ _ hcondition _ _ ih =>
    intro scopes hat hs
    refine ih (evaluate_at hat hcondition) ?_
    cases no with
    | none => exact hs.2.2
    | some no => exact hs.2.1.2
  | no hcondition _ _ ih =>
    intro scopes hat hs
    exact ih (evaluate_at hat hcondition) hs.2.2.2
  | body hcondition _ _ ih =>
    intro scopes hat hs
    exact ih (evaluate_at hat hcondition) hs.2.2
  | again hcondition _ hbody _ ih =>
    intro scopes hat hs
    -- the round that is done has declared nothing: a loop body is no declaration
    exact ih (execute_at_of_wellPlaced (evaluate_at hat hcondition) hs.2 hbody) hs

end Nested

end Scriptlet
