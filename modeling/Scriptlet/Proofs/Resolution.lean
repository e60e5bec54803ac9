import Scriptlet.Proofs.Moments

/-!
# Block scoping is static

A resolved program climbs to its variables by hops that were counted in the text.  It runs as the
program itself does, because at each moment the hops lead to the scope where the name is found.

* `execute_resolved` : a statement runs as the resolved one does, if at each moment of the run the
  hops lead right.  No scope is touched at any other moment;
* `block_scoping_is_static` : **chains, names and hops are as the text says**, for every program
  that parsing builds and every run of it in the global scope.
-/

namespace Scriptlet

/-! ### Running by hops -/

/-- For a variable with the given blocks around it, the hops lead to where the name is found. -/
def Store.Leads (here : ScopeId) (blocks : Blocks) (name : Token) (store : Store) : Prop :=
  Resolved.lookUp here name (blocks.hops name.lexeme) store = lookUp here name store ∧
    ∀ v, Resolved.overwrite here name (blocks.hops name.lexeme) v store =
      overwrite here name v store

theorem Store.Nested.leads {store : Store} {global here : ScopeId} {blocks : Blocks}
    {scopes : List ScopeId} (h : store.Nested global blocks here scopes) (name : Token) :
    store.Leads here blocks name := by
  obtain ⟨home, hhome⟩ := h.exists_home name.lexeme
  have hclimb := (h.climb (blocks.hops name.lexeme)).trans hhome
  constructor
  · cases hget : store.getIn home name <;>
      simp only [Resolved.lookUp, lookUp, hclimb, h.get hhome, hget]
  · intro v
    cases hassign : store.assignIn home name v <;>
      simp only [Resolved.overwrite, overwrite, hclimb, h.assign hhome, hassign]

/-- An expression is evaluated as the resolved one is, if the hops lead right wherever it meets a
variable. -/
theorem eval_resolved (here : ScopeId) (blocks : Blocks) (e : Expr) :
    ∀ store, (∀ name after, e.Meets here store name after → after.Leads here blocks name) →
      Resolved.eval here (e.resolved blocks) store = eval here e store := by
  induction e with
  | literal v => intro store _; rfl
  | grouping inner ih => exact fun store h => ih store fun name after hm => h _ _ (.grouping hm)
  | unary operator operand ih =>
    intro store h
    exact bind_congr_at (ih store fun name after hm => h _ _ (.unary hm)) fun _ _ _ => rfl
  | binary left operator right ihl ihr =>
    intro store h
    have hleft := ihl store fun name after hm => h _ _ (.binaryLeft hm)
    refine bind_congr_at hleft fun a between ha => ?_
    -- the moments of the right operand are met from where the left one ends
    rw [hleft] at ha
    exact bind_congr_at (ihr between fun name after hm => h _ _ (.binaryRight ha hm))
      fun _ _ _ => rfl
  | logical left operator right ihl ihr =>
    intro store h
    have hleft := ihl store fun name after hm => h _ _ (.logicalLeft hm)
    refine bind_congr_at hleft fun a between ha => ?_
    rw [hleft] at ha
    split
    · rfl
    · rename_i hopen
      exact ihr between fun name after hm => h _ _ (.logicalRight ha (by simpa using hopen) hm)
  | reference name =>
    intro store h
    rw [eval_reference]
    exact (h name store .reference).1
  | assign name value ih =>
    intro store h
    have hvalue := ih store fun name after hm => h _ _ (.value hm)
    rw [eval_assign]
    refine bind_congr_at hvalue fun v between hv => ?_
    rw [hvalue] at hv
    exact (h name between (.assign hv)).2 v

section

variable {ω : Type} [Output ω]

/-- Wherever the run of a statement meets a variable, the hops lead right. -/
def Stmt.Led (rounds : Nat) (blocks : Blocks) (s : Stmt) (m : Machine ω) : Prop :=
  ∀ name place after, s.Meets rounds blocks m name place after →
    after.store.Leads after.here place name

theorem evaluate_resolved {rounds : Nat} {blocks : Blocks} {s : Stmt} {e : Expr} {m : Machine ω}
    (hown : s.expr? = some e) (h : s.Led rounds blocks m) :
    Resolved.evaluate (e.resolved blocks) m = Exec.evaluate e m := by
  have heval := eval_resolved m.here blocks e m.store fun name after hm =>
    h name blocks { m with store := after } (.own hown hm)
  rw [Resolved.evaluate, Exec.evaluate_eq, Exec.evaluating_eq, heval]

/-- The rounds of a loop, each of them as the resolved one. -/
theorem whileTrue_resolved {rounds : Nat} {blocks : Blocks} {condition : Expr} {body : Stmt}
    (hbody : ∀ m : Machine ω, body.Led rounds blocks m →
      Resolved.execute rounds (body.resolved blocks) m = execute rounds body m) :
    ∀ n (m : Machine ω), (Stmt.loop condition body).Led rounds blocks m →
      whileTrue (Resolved.evaluate (condition.resolved blocks))
        (Resolved.execute rounds (body.resolved blocks)) n m =
      whileTrue (Exec.evaluate condition) (execute rounds body) n m := by
  intro n
  induction n with
  | zero => intro m _; rfl
  | succ n ih =>
    intro m h
    have hcondition := evaluate_resolved rfl h
    refine bind_congr_at hcondition fun v between hv => ?_
    rw [hcondition] at hv
    split
    · rename_i htrue
      have hround := hbody between fun name place after hm => h _ _ _ (.body hv htrue hm)
      refine bind_congr_at hround fun _ next hnext => ?_
      rw [hround] at hnext
      exact ih next fun name place after hm => h _ _ _ (.again hv htrue hnext hm)
    · rfl

mutual

/-- **A statement runs as the resolved one does**, if the hops lead right at each moment. -/
theorem execute_resolved (rounds : Nat) : ∀ (s : Stmt) (blocks : Blocks) (m : Machine ω),
    s.Led rounds blocks m → Resolved.execute rounds (s.resolved blocks) m = execute rounds s m
  | .print value, blocks, m, h => bind_congr_at (evaluate_resolved rfl h) fun _ _ _ => rfl
  | .expression e, blocks, m, h => bind_congr_at (evaluate_resolved rfl h) fun _ _ _ => rfl
  | .var name none, blocks, m, _ => rfl
  | .var name (some init), blocks, m, h => bind_congr_at (evaluate_resolved rfl h) fun _ _ _ => rfl
  | .block body, blocks, m, h => by
    have hbody := executeAll_resolved rounds body ([] :: blocks) m.inner (by
      rintro name place after ⟨before, s, behind, between, rfl, hbefore, hm⟩
      rw [Blocks.declare, List.nil_append] at hm
      exact h name place after (.block hbefore hm))
    rw [Stmt.resolved, Resolved.execute, execute, Exec.withinNew_eq, Exec.withinNew_eq, hbody]
  | .branch condition yes none, blocks, m, h => by
    have hcondition := evaluate_resolved rfl h
    refine bind_congr_at hcondition fun v between hv => ?_
    rw [hcondition] at hv
    split
    · rename_i htrue
      exact execute_resolved rounds yes blocks between fun name place after hm =>
        h _ _ _ (.yes hv htrue hm)
    · rfl
  | .branch condition yes (some no), blocks, m, h => by
    have hcondition := evaluate_resolved rfl h
    refine bind_congr_at hcondition fun v between hv => ?_
    rw [hcondition] at hv
    split
    · rename_i htrue
      exact execute_resolved rounds yes blocks between fun name place after hm =>
        h _ _ _ (.yes hv htrue hm)
    · rename_i hfalse
      exact execute_resolved rounds no blocks between fun name place after hm =>
        h _ _ _ (.no hv (by simpa using hfalse) hm)
  | .loop condition body, blocks, m, h => by
    rw [execute, Exec.repeatWhile_eq]
    exact whileTrue_resolved (execute_resolved rounds body blocks) rounds m h
termination_by structural s => s

theorem executeAll_resolved (rounds : Nat) :
    ∀ (body : List Stmt) (blocks : Blocks) (m : Machine ω),
    (∀ name place after, MeetsIn rounds blocks body m name place after →
      after.store.Leads after.here place name) →
    Resolved.executeAll rounds (Stmt.allResolved blocks body) m = executeAll rounds body m
  | [], blocks, m, _ => rfl
  | s :: rest, blocks, m, h => by
    have hs := execute_resolved rounds s blocks m fun name place after hm =>
      h name place after ⟨[], s, rest, m, rfl, rfl, by rwa [List.flatMap_nil, Blocks.declare_nil]⟩
    refine bind_congr_at hs fun _ between hbetween => ?_
    rw [hs] at hbetween
    refine executeAll_resolved rounds rest (blocks.declare s.varNames) between ?_
    rintro name place after ⟨before, t, behind, next, rfl, hbefore, hm⟩
    -- a moment of the rest is one of the whole, with one more statement before it
    refine h name place after ⟨s :: before, t, behind, next, rfl, ?_, ?_⟩
    · exact (bind_of_ok hbetween).trans hbefore
    · rwa [List.flatMap_cons, Blocks.declare_append]
termination_by structural body => body

end

/-- **Block scoping is static.**  Let a parsed program run in a scope without parent.  At every
moment at which the run reads or assigns a variable, the chain of the current scope has one scope
for each block around the variable and ends in the global scope; each of them binds exactly the
names declared in its block before the place of the variable; and the variable is read and assigned
in the scope where its hops lead, which is that of the innermost block with such a declaration or
else the global one.  So the program runs in every respect as the resolved one does. -/
theorem block_scoping_is_static {tokens : List Token} {parsed : Parse} {m : Machine ω}
    (hparse : parse? tokens = some parsed) (hhere : m.here < m.store.scopes.size)
    (hglobal : m.store.parent? m.here = none) (rounds : Nat) :
    (∀ name blocks after, MeetsIn rounds [] parsed.statements m name blocks after →
      ∃ scopes, after.store.chain after.here = scopes ++ [m.here] ∧
        List.Forall₂ (fun scope names =>
          ∀ found, (after.store.bound? scope found).isSome ↔ found ∈ names) scopes blocks ∧
        ∃ home, (scopes ++ [m.here])[blocks.hops name.lexeme]? = some home ∧
          after.store.get after.here name = after.store.getIn home name ∧
          ∀ v, after.store.assign after.here name v = after.store.assignIn home name v) ∧
    Resolved.interpret rounds (Stmt.allResolved [] parsed.statements) m =
      interpret rounds parsed.statements m := by
  have hkinds := parse?_wellKinded hparse
  have hstart : m.At m.here [] [] := .global hhere hglobal
  have hmeets : ∀ name blocks after, MeetsIn rounds [] parsed.statements m name blocks after →
      ∃ scopes, after.At m.here blocks scopes := by
    rintro name blocks after ⟨before, s, behind, between, hsplit, hbefore, hm⟩
    rw [hsplit] at hkinds
    exact hm.at (executeAll_at hstart (fun t ht => hkinds t (by simp [ht])) hbefore)
      (hkinds s (by simp))
  constructor
  · intro name blocks after hm
    obtain ⟨scopes, hat⟩ := hmeets name blocks after hm
    obtain ⟨home, hhome⟩ := hat.exists_home name.lexeme
    exact ⟨scopes, hat.chain, hat.binds, home, hhome, hat.get hhome, hat.assign hhome⟩
  · have hrun := executeAll_resolved rounds parsed.statements [] m fun name blocks after hm =>
      (hmeets name blocks after hm).choose_spec.leads name
    simp only [Resolved.interpret, interpret_eq, Exec.flushing, hrun]

end

/-! ### A shadowed variable -/

/-- The tokens of `var a; { var a; { print a; } }`, on one line. -/
def shadowing : List Token :=
  let name : Token := ⟨.identifier "a", "a", 1⟩
  let token (s : Symbol) : Token := ⟨.symbol s, s.text, 1⟩
  let declaration : List Token := [⟨.keyword .var, "var", 1⟩, name, token .semicolon]
  declaration ++ [token .leftBrace] ++ declaration ++ [token .leftBrace,
    ⟨.keyword .print, "print", 1⟩, name, token .semicolon, token .rightBrace, token .rightBrace,
    ⟨.endOfFile, "", 1⟩]

/-- At the `print` the chain has three scopes, and `a` is read in the one in the middle. -/
theorem shadowing_is_static :
    ∃ parsed name after inner outer,
      parse? shadowing = some parsed ∧
      MeetsIn 1 [] parsed.statements (Machine.new ({} : Sink)) name [[], ["a"]] after ∧
      after.store.chain after.here = [inner, outer, 0] ∧
      after.store.get after.here name = after.store.getIn outer name := by
  let name : Token := ⟨.identifier "a", "a", 1⟩
  let parsed : Parse :=
    ⟨[.var name none, .block [.var name none, .block [.print (.reference name)]]], []⟩
  have hparse : parse? shadowing = some parsed := by rfl
  -- both declarations are done when the inner block is entered
  have hmeets : ∃ after,
      MeetsIn 1 [] parsed.statements (Machine.new ({} : Sink)) name [[], ["a"]] after :=
    ⟨_, [.var name none], .block [.var name none, .block [.print (.reference name)]], [], _, rfl,
      rfl, @Stmt.Meets.block _ _ _ _ [.var name none] (.block [.print (.reference name)]) []
        _ _ _ _ _ rfl
        (@Stmt.Meets.block _ _ _ _ [] (.print (.reference name)) [] _ _ _ _ _ rfl
          (.own rfl .reference))⟩
  obtain ⟨after, hmeets⟩ := hmeets
  obtain ⟨scopes, hchain, hbinds, home, hhome, hget, -⟩ :=
    (block_scoping_is_static hparse (by decide) rfl 1).1 name _ after hmeets
  obtain ⟨inner, rest, -, h₁, rfl⟩ := List.forall₂_cons_right_iff.1 hbinds
  obtain ⟨outer, rest, -, h₂, rfl⟩ := List.forall₂_cons_right_iff.1 h₁
  obtain rfl := List.forall₂_nil_right_iff.1 h₂
  obtain rfl : outer = home := Option.some.inj hhome
  exact ⟨parsed, name, after, inner, outer, hparse, hmeets, hchain, hget⟩

end Scriptlet
