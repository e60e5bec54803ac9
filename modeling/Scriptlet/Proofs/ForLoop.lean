import Scriptlet.Proofs.Acceptance
import Scriptlet.Proofs.Refinement

/-!
# What a `for` loop means

There is no tree for a `for` loop: it is parsed as a `while` loop with blocks around it, one for the
initializer and, if there is an increment, one for each round.  What the loop is meant to do can be
said without them, and here the two are shown to be the same.  The point is the block around a
round: it opens a scope that the loop does not have.  Nothing is ever declared in it, because the
body of a loop is a statement and no declaration, and so nobody notices.

* `forLoop` : what a `for` loop is meant to do, clause by clause;
* `Grammar.Derivation.declared_tree` : a statement declares nothing where it stands;
* `execute_forTree` : the parsed loop does what the loop is meant to do;
* `for_is_forLoop` : **every `for` loop means what it is meant to**, whatever clauses it has, in
  every state and for every number of rounds, and it adds no name to any scope.
-/

namespace Scriptlet

open Exec

/-! ### The loop that is meant -/

section

variable {ω : Type}

/-- The condition of a loop, which holds if there is none. -/
def forCondition : Option Expr → ExecOn ω Value
  | none => return .boolean true
  | some e => evaluate e

/-- The increment of a loop, if there is one. -/
def forIncrement : Option Expr → ExecOn ω Unit
  | none => return ()
  | some e => discard (evaluate e)

theorem evaluate_condition (condition : Option Expr) :
    (evaluate (condition.getD (.literal (.boolean true))) : ExecOn ω Value) =
      forCondition condition := by
  cases condition with
  | none => rfl
  | some e => rfl

variable [Output ω]

/-- The rounds of a loop, in the current scope: as long as the condition holds, the body and then
the increment. -/
def forRounds (rounds : Nat) (condition increment : Option Expr) (body : Stmt) : ExecOn ω Unit :=
  whileTrue (forCondition condition)
    (do
      execute rounds body
      forIncrement increment)
    rounds

/-- A `for` loop.  An initializer runs first, in a scope that is opened for the loop. -/
def forLoop (rounds : Nat) (init : Option Stmt) (condition increment : Option Expr) (body : Stmt) :
    ExecOn ω Unit :=
  match init with
  | none => forRounds rounds condition increment body
  | some s => withinNew do
    execute rounds s
    forRounds rounds condition increment body

/-! ### Its clauses -/

theorem executeAll_singleton (rounds : Nat) (s : Stmt) :
    (executeAll rounds [s] : ExecOn ω Unit) = execute rounds s := by
  simp only [executeAll, bind_pure_unit]

theorem executeAll_pair (rounds : Nat) (s t : Stmt) :
    (executeAll rounds [s, t] : ExecOn ω Unit) = (do
      execute rounds s
      execute rounds t) := by
  rw [executeAll, executeAll_singleton]

/-- A round of the parsed loop is the body and then the increment. -/
theorem execute_round (rounds : Nat) {body : Stmt} (increment : Expr) {m : Machine ω}
    (hm : m.WellFormed) (hbody : body.declared = []) :
    execute rounds (.block [body, .expression increment]) m = (do
      execute rounds body
      forIncrement (some increment)) m := by
  have hundeclared : ∀ s ∈ [body, .expression increment], s.declared = [] := by
    rintro s (_ | ⟨_, _ | ⟨_, hs⟩⟩)
    · exact hbody
    · rfl
    · cases hs
  rw [execute_block_of_undeclared rounds hm hundeclared, executeAll_pair]
  rfl

/-- Loops with rounds that do the same do the same. -/
theorem whileTrue_congr {rounds : Nat} {condition : Expr} {round : Stmt} {action : ExecOn ω Unit}
    (h : ∀ m, m.WellFormed → execute rounds round m = action m) :
    ∀ n m, m.WellFormed →
      whileTrue (evaluate condition) (execute rounds round) n m =
        whileTrue (evaluate condition) action n m := by
  intro n
  induction n with
  | zero => intro m _; rfl
  | succ n ih =>
    intro m hm
    refine bind_congr_at rfl fun v between hv => ?_
    have hbetween := hm.evaluate_ok hv
    split
    · refine bind_congr_at (h between hbetween) fun _ next hnext => ?_
      exact ih next (hbetween.step (execute_grows _ _ _) hnext)
    · rfl

/-- The `while` loop of a parsed loop goes through the rounds. -/
theorem execute_loop (rounds : Nat) {condition increment : Option Expr} {body : Stmt}
    {m : Machine ω} (hm : m.WellFormed) (hbody : body.declared = []) :
    execute rounds (Grammar.forTree none condition increment body) m =
      forRounds rounds condition increment body m := by
  rw [forRounds, ← evaluate_condition]
  cases increment with
  | none =>
    rw [Grammar.forTree, execute, repeatWhile_eq]
    simp only [forIncrement, bind_pure_unit]
  | some increment =>
    rw [Grammar.forTree, execute, repeatWhile_eq]
    -- round by round: the block around a round is not noticed
    exact whileTrue_congr (fun m hm => execute_round rounds increment hm hbody) rounds m hm

/-- **The parsed loop does what the loop is meant to do.** -/
theorem execute_forTree (rounds : Nat) (init : Option Stmt) {condition increment : Option Expr}
    {body : Stmt} {m : Machine ω} (hm : m.WellFormed) (hbody : body.declared = []) :
    execute rounds (Grammar.forTree init condition increment body) m =
      forLoop rounds init condition increment body m := by
  cases init with
  | none => exact execute_loop rounds hm hbody
  | some s =>
    have htree : Grammar.forTree (some s) condition increment body =
        .block [s, Grammar.forTree none condition increment body] := by
      cases increment <;> rfl
    rw [htree, execute, executeAll_pair, forLoop, withinNew_eq, withinNew_eq]
    -- both open the scope of the loop, so only what happens inside of it is left
    congr 1
    refine bind_congr_at rfl fun _ between hs => ?_
    exact execute_loop rounds (hm.inner.step (execute_grows _ _ _) hs) hbody

end

/-! ### Every `for` loop -/

namespace Grammar

theorem declared_forTree {init : Option Stmt} {condition increment : Option Expr} {body : Stmt}
    (hbody : body.declared = []) : (forTree init condition increment body).declared = [] := by
  cases init with
  | none =>
    cases increment with
    | none => exact hbody
    | some increment => rfl
  | some s => cases increment <;> rfl

/-- A statement of the grammar declares nothing where it stands. -/
theorem Derivation.declared_tree : (d : Derivation .statement) → Stmt.declared d.tree = []
  | .expression _ _ => rfl
  | .print _ _ _ => rfl
  | .block _ _ _ => rfl
  | .ifOnly _ _ _ _ yes => yes.declared_tree
  | .ifElse _ _ _ _ yes _ no => by
    show Stmt.declared yes.tree ++ Stmt.declared no.tree = []
    rw [yes.declared_tree, no.declared_tree]
    rfl
  | .while _ _ _ _ body => body.declared_tree
  | .for _ _ _ _ _ _ _ body => declared_forTree body.declared_tree

end Grammar

open Grammar

theorem parse?_of_statement (d : Derivation .statement) (hd : d.NearestElse) {e : Token}
    (he : e.kind = .endOfFile) : parse? (d.tokens ++ [e]) = some ⟨[d.tree], []⟩ := by
  have htokens : (Derivation.cons (.statement d) .empty).tokens = d.tokens := List.append_nil _
  have hparse := parse?_of_derivation (.cons (.statement d) .empty) ⟨hd, trivial⟩ he
  rw [htokens] at hparse
  exact hparse

/-- **Every `for` loop means what it is meant to.**  Its tokens parse without errors to one
statement.  In every well-formed machine, which is every reachable one, and for every number of
rounds, executing that statement does in every respect what the loop is meant to do: it ends alike,
with the same error if it fails, or both are out of rounds, and it leaves the same scopes and the
same output.  No scope that was there has another name afterwards. -/
theorem for_is_forLoop {ω : Type} [Output ω] {d : Derivation .statement}
    {start : Tok (.keyword .for)} {opening : Tok (.symbol .leftParen)} {init : ForInit}
    {condition : Option Expression} {finish : Tok (.symbol .semicolon)}
    {increment : Option Expression} {closing : Tok (.symbol .rightParen)}
    {body : Derivation .statement} {e : Token}
    (hfor : d = .for start opening init condition finish increment closing body)
    (hnearest : d.NearestElse) (he : e.kind = .endOfFile) :
    parse? (d.tokens ++ [e]) = some ⟨[d.tree], []⟩ ∧
    ∀ (rounds : Nat) (m : Machine ω), m.WellFormed →
      execute rounds d.tree m =
        forLoop rounds init.tree (condition.map (·.tree)) (increment.map (·.tree)) body.tree m ∧
      ∀ id name, ((endState (execute rounds d.tree) m).store.bound? id name).isSome ↔
        (m.store.bound? id name).isSome := by
  refine ⟨parse?_of_statement d hnearest he, fun rounds m hm => ⟨?_, fun id name => ?_⟩⟩
  · rw [hfor]
    exact execute_forTree rounds _ hm body.declared_tree
  · have hgrows := (execute_grows rounds d.tree m).store
    rw [d.declared_tree] at hgrows
    exact hgrows.bound_iff id name

/-! ### A loop that fails -/

/-- The loop `for (var i;; i = j) print i;`. -/
def failingLoop : Derivation .statement :=
  let opening := onFirstLine (.symbol .leftParen) "("
  let closing := onFirstLine (.symbol .rightParen) ")"
  let finish := onFirstLine (.symbol .semicolon) ";"
  let i := variableOnFirstLine "i"
  .for (onFirstLine (.keyword .for) "for") opening
    (.var ⟨onFirstLine (.keyword .var) "var", i, none, finish⟩) none finish
    (some (.assign i (onFirstLine (.symbol .equal) "=") (variableExpression "j"))) closing
    (.print (onFirstLine (.keyword .print) "print") (variableExpression "i") finish)

/-- Where `j` is not declared the loop fails in its first increment. -/
theorem failingLoop_fails :
    parse? (failingLoop.tokens ++ [⟨.endOfFile, "", 1⟩]) = some ⟨[failingLoop.tree], []⟩ ∧
    ∃ m : Machine, execute 2 failingLoop.tree (Machine.new {}) =
        .error (.error ⟨.undefinedVariable "j", 1⟩) m ∧
      m.sink.written = "nil\n".toUTF8 ∧ m.store.bound? 0 "i" = none := by
  obtain ⟨hparse, hrun⟩ :=
    @for_is_forLoop Sink _ failingLoop _ _ _ _ _ _ _ _ ⟨.endOfFile, "", 1⟩ rfl trivial rfl
  obtain ⟨hloop, -⟩ := hrun 2 (Machine.new {}) (Machine.wellFormed_new _)
  refine ⟨hparse, _, hloop.trans rfl, ?_, ?_⟩
  · decide
  · rfl

end Scriptlet
