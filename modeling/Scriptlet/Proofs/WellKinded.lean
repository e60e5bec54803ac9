import Scriptlet.Parse
import Scriptlet.Proofs.Reading

/-!
# The trees that parsing builds

Evaluation takes trees with any operator and any name, and execution takes a declaration wherever a
statement may stand.  Parsing builds fewer of them, and it does so for every stream of tokens, also
where it reports errors: what it drops is dropped whole.

* `Expr.WellKinded`, `Stmt.WellKinded` : every operator has a meaning where it stands, every name is
  an identifier, and no branch and no loop body is a declaration;
* `Reading.Yields` : a reading has a property of its value, if it has a value;
* `parse?_wellKinded` : **every statement that parsing returns is well-kinded.**
-/

namespace Scriptlet

/-! ### Trees -/

/-- The operators that have a meaning before an operand. -/
def Kind.isUnary : Kind → Bool
  | .symbol .bang | .symbol .minus => true
  | _ => false

/-- The operators that have a meaning between two values. -/
def Kind.isBinary : Kind → Bool
  | .symbol .equalEqual | .symbol .bangEqual => true
  | .symbol .less | .symbol .lessEqual | .symbol .greater | .symbol .greaterEqual => true
  | .symbol .plus | .symbol .minus | .symbol .star | .symbol .slash => true
  | _ => false

/-- The operators whose left operand may decide. -/
def Kind.isLogical : Kind → Bool
  | .keyword .and | .keyword .or => true
  | _ => false

/-- Every operator has a meaning where it stands, and every name is an identifier. -/
def Expr.WellKinded : Expr → Prop
  | .literal _ => True
  | .grouping inner => inner.WellKinded
  | .unary operator operand => operator.kind.isUnary ∧ operand.WellKinded
  | .binary left operator right =>
    operator.kind.isBinary ∧ left.WellKinded ∧ right.WellKinded
  | .logical left operator right =>
    operator.kind.isLogical ∧ left.WellKinded ∧ right.WellKinded
  | .reference name => name.kind.isIdentifier
  | .assign name value => name.kind.isIdentifier ∧ value.WellKinded

namespace Stmt

/-- Whether a statement is a declaration. -/
def isVar : Stmt → Bool
  | var _ _ => true
  | _ => false

mutual

/-- The expressions in a statement are well-kinded, every declared name is an identifier, and no
branch and no loop body is a declaration. -/
def WellKinded : Stmt → Prop
  | print value => value.WellKinded
  | expression e => e.WellKinded
  | var name none => name.kind.isIdentifier
  | var name (some init) => name.kind.isIdentifier ∧ init.WellKinded
  | block body => AllWellKinded body
  | branch condition yes none => condition.WellKinded ∧ yes.isVar = false ∧ yes.WellKinded
  | branch condition yes (some no) =>
    condition.WellKinded ∧ (yes.isVar = false ∧ yes.WellKinded) ∧ no.isVar = false ∧ no.WellKinded
  | loop condition body => condition.WellKinded ∧ body.isVar = false ∧ body.WellKinded
termination_by structural s => s

/-- All of the statements are well-kinded. -/
def AllWellKinded : List Stmt → Prop
  | [] => True
  | s :: rest => s.WellKinded ∧ AllWellKinded rest
termination_by structural body => body

end

theorem allWellKinded_iff {body : List Stmt} : AllWellKinded body ↔ ∀ s ∈ body, s.WellKinded := by
  induction body with
  | nil => simp [AllWellKinded]
  | cons s rest ih => simp [AllWellKinded, ih]

/-- A well-kinded statement that may stand as a branch or a loop body. -/
def WellPlaced (s : Stmt) : Prop := s.isVar = false ∧ s.WellKinded

theorem wellPlaced_counted {init : Option Stmt} {condition : Expr} {increment : Option Expr}
    {body : Stmt} (hinit : ∀ s ∈ init, s.WellKinded) (hcondition : condition.WellKinded)
    (hincrement : ∀ e ∈ increment, e.WellKinded) (hbody : body.WellPlaced) :
    (counted init condition increment body).WellPlaced := by
  cases increment with
  | none =>
    cases init with
    | none => exact ⟨rfl, hcondition, hbody⟩
    | some s => exact ⟨rfl, hinit s rfl, ⟨hcondition, hbody⟩, trivial⟩
  | some e =>
    have hround : (block [body, expression e]).WellPlaced :=
      ⟨rfl, hbody.2, hincrement e rfl, trivial⟩
    cases init with
    | none => exact ⟨rfl, hcondition, hround⟩
    | some s => exact ⟨rfl, hinit s rfl, ⟨hcondition, hround⟩, trivial⟩

end Stmt

/-! ### Readings with a property -/

namespace Reading

variable {α β : Type} {P : α → Prop} {Q : β → Prop} {c : Cursor}

/-- The value of a reading, if it has one, has a property. -/
def Yields (P : α → Prop) : Reading α → Prop
  | done value _ _ => P value
  | stuck _ _ => True
  | endless => True

theorem Yields.after {r : Reading α} (h : r.Yields P) (errors : List SyntaxError) :
    (r.after errors).Yields P := by
  cases r <;> exact h

/-- **A rule has its property if its parts have theirs.** -/
theorem Yields.bind {x : Rule α} {f : α → Rule β} (hx : (x c).Yields P)
    (hf : ∀ a c', P a → (f a c').Yields Q) : ((x >>= f) c).Yields Q := by
  rw [Rule.bind_apply]
  cases h : x c with
  | done a c' errors =>
    rw [h] at hx
    exact (hf a c' hx).after errors
  | stuck c' errors => trivial
  | endless => trivial

theorem Yields.map {x : Rule α} {f : α → β} (hx : (x c).Yields P) (hf : ∀ a, P a → Q (f a)) :
    ((f <$> x) c).Yields Q := by
  rw [← bind_pure_comp]
  exact hx.bind fun a _ ha => hf a ha

theorem yields_expect {wanted : Kind → Bool} {complaint : Complaint} {f : Token → Rule α}
    (hf : wanted c.peek.kind = true → (f c.peek c.next).Yields P) :
    ((Rule.expect wanted complaint >>= f) c).Yields P := by
  rw [Rule.expect_bind]
  split
  · rename_i hw; exact hf hw
  · trivial

/-- An expected token of which nothing is kept. -/
theorem yields_skip {wanted : Kind → Bool} {complaint : Complaint} {f : PUnit → Rule α}
    (hf : ∀ c', (f ⟨⟩ c').Yields P) :
    ((discard (Rule.expect wanted complaint) >>= f) c).Yields P := by
  rw [Rule.discard_bind]
  exact yields_expect fun _ => hf _

end Reading

namespace Rule

open Reading

/-- Wherever a rule reads a value, it has a property. -/
def Yields {α : Type} (P : α → Prop) (x : Rule α) : Prop := ∀ c, (x c).Yields P

variable {e u : Rule Expr} {s : Rule Stmt}

/-! ### Expressions -/

theorem primary_yields (he : e.Yields Expr.WellKinded) : (primary e).Yields Expr.WellKinded := by
  intro c
  cases hl : c.peek.kind.literal? with
  | some v => rw [primary_of_literal e hl]; trivial
  | none =>
    by_cases hp : c.peek.kind = .symbol .leftParen
    · rw [primary_of_group e hp]
      exact (he _).bind fun inner _ hinner => yields_skip fun _ => hinner
    · cases hn : c.peek.kind with
      | identifier name =>
        rw [primary_of_name e hn]
        show c.peek.kind.isIdentifier
        rw [hn]; rfl
      | _ => rw [primary_of_other e hl (by rw [hn]; rfl) hp]; trivial

theorem unary_yields (he : e.Yields Expr.WellKinded) :
    ∀ n, (unary e n).Yields Expr.WellKinded := by
  intro n
  induction n with
  | zero => intro c; trivial
  | succ n ih =>
    intro c
    by_cases hop : c.peek.kind = .symbol .bang ∨ c.peek.kind = .symbol .minus
    · rw [unary_of_operator e n hop]
      refine (ih _).bind fun operand _ hoperand => ⟨?_, hoperand⟩
      rcases hop with h | h <;> (rw [h]; rfl)
    · rw [unary_of_other e n hop]
      exact primary_yields he c

theorem wellKinded_join {level : Level} {left right : Expr} {operator : Token}
    (h : level.has operator.kind = true) (hl : left.WellKinded) (hr : right.WellKinded) :
    (level.join left operator right).WellKinded := by
  unfold Level.has at h
  split at h
  case h_13 => cases h
  all_goals
    rename_i hk
    exact ⟨by rw [hk]; rfl, hl, hr⟩

theorem chain_yields (hu : u.Yields Expr.WellKinded) (level : Level) :
    ∀ n left, left.WellKinded → (chain level u n left).Yields Expr.WellKinded := by
  intro n
  induction n with
  | zero => intro left _ c; trivial
  | succ n ih =>
    intro left hleft c
    rw [chain, peek_bind]
    split
    · rename_i hop
      rw [advance_bind]
      exact (hu _).bind fun right _ hright => ih _ (wellKinded_join hop hleft hright) _
    · exact hleft

theorem operand_yields (hu : u.Yields Expr.WellKinded) (n : Nat) :
    ∀ levels, (operand u n levels).Yields Expr.WellKinded
  | [] => hu
  | level :: tighter => fun c =>
    have ih := operand_yields hu n tighter
    (ih c).bind fun left _ hleft => chain_yields ih level n left hleft _

theorem assignTo_yields {target value : Expr} {equals : Token} (ht : target.WellKinded)
    (hv : value.WellKinded) : (assignTo target equals value).Yields Expr.WellKinded := by
  intro c
  unfold assignTo
  split
  · exact ⟨ht, hv⟩
  · exact hv

theorem expression_yields : ∀ n, (expression n).Yields Expr.WellKinded := by
  intro n
  induction n with
  | zero => intro c; trivial
  | succ n ih =>
    intro c
    refine (operand_yields (unary_yields ih _) _ _ c).bind fun target c₁ htarget => ?_
    rw [peek_bind]
    split
    · rw [advance_bind]
      exact (ih _).bind fun value c₂ hvalue => assignTo_yields htarget hvalue c₂
    · exact htarget

/-! ### Statements -/

theorem varDeclaration_yields (he : e.Yields Expr.WellKinded) :
    (varDeclaration e).Yields Stmt.WellKinded := by
  intro c
  refine yields_expect fun hname => ?_
  rw [accept_bind]
  split
  · simp only [if_true, bind_map_left]
    exact (he _).bind fun init _ hinit => yields_skip fun _ => ⟨hname, hinit⟩
  · simp only [Bool.false_eq_true, if_false, pure_bind]
    exact yields_skip fun _ => hname

theorem expressionStatement_yields (he : e.Yields Expr.WellKinded) :
    (expressionStatement e).Yields Stmt.WellPlaced :=
  fun c => (he c).bind fun _ _ h => yields_skip fun _ => ⟨rfl, h⟩

theorem printStatement_yields (he : e.Yields Expr.WellKinded) :
    (printStatement e).Yields Stmt.WellPlaced :=
  fun c => (he c).bind fun _ _ h => yields_skip fun _ => ⟨rfl, h⟩

theorem forInit_yields (he : e.Yields Expr.WellKinded) :
    (forInit e).Yields fun init => ∀ s ∈ init, s.WellKinded := by
  intro c
  by_cases hsemi : c.peek.kind = .symbol .semicolon
  · rw [forInit_of_semicolon e hsemi]
    rintro s ⟨⟩
  by_cases hvar : c.peek.kind = .keyword .var
  · rw [forInit_of_var e hvar]
    refine (varDeclaration_yields he _).map ?_
    rintro s hs _ ⟨⟩
    exact hs
  · rw [forInit_of_other e hsemi hvar]
    refine (expressionStatement_yields he _).map ?_
    rintro s hs _ ⟨⟩
    exact hs.2

theorem clause_yields {α : Type} {P : α → Prop} {x : Rule α} {a : α} (hx : x.Yields P) (ha : P a)
    (missing : Kind → Bool) : (clause missing a x).Yields P := by
  intro c
  unfold clause
  split
  · exact ha
  · exact hx c

theorem forStatement_yields (he : e.Yields Expr.WellKinded) (hs : s.Yields Stmt.WellPlaced) :
    (forStatement e s).Yields Stmt.WellPlaced := by
  intro c
  rw [forStatement_eq]
  refine yields_skip fun c₁ => ?_
  refine (forInit_yields he c₁).bind fun init c₂ hinit => ?_
  have hendless : (Expr.literal (.boolean true)).WellKinded := trivial
  refine (clause_yields he hendless _ c₂).bind fun condition c₃ hcondition => ?_
  refine yields_skip fun c₄ => ?_
  have hsome : (some <$> e).Yields fun increment => ∀ e ∈ increment, e.WellKinded := by
    intro c
    refine (he c).map ?_
    rintro e h _ ⟨⟩
    exact h
  refine (clause_yields hsome (by rintro _ ⟨⟩) _ c₄).bind fun increment c₅ hincrement => ?_
  refine yields_skip fun c₆ => ?_
  refine (hs c₆).bind fun body c₇ hbody => ?_
  exact Stmt.wellPlaced_counted hinit hcondition hincrement hbody

theorem ifStatement_yields (he : e.Yields Expr.WellKinded) (hs : s.Yields Stmt.WellPlaced) :
    (ifStatement e s).Yields Stmt.WellPlaced := by
  intro c
  refine yields_skip fun c₁ => ?_
  refine (he c₁).bind fun condition c₂ hcondition => ?_
  refine yields_skip fun c₃ => ?_
  refine (hs c₃).bind fun yes c₄ hyes => ?_
  rw [accept_bind]
  split
  · simp only [if_true, bind_map_left]
    exact (hs _).bind fun no _ hno => ⟨rfl, hcondition, hyes, hno⟩
  · simp only [Bool.false_eq_true, if_false, pure_bind]
    exact ⟨rfl, hcondition, hyes⟩

theorem whileStatement_yields (he : e.Yields Expr.WellKinded) (hs : s.Yields Stmt.WellPlaced) :
    (whileStatement e s).Yields Stmt.WellPlaced := by
  intro c
  refine yields_skip fun c₁ => ?_
  refine (he c₁).bind fun condition c₂ hcondition => ?_
  refine yields_skip fun c₃ => ?_
  exact (hs c₃).bind fun body _ hbody => ⟨rfl, hcondition, hbody⟩

/-- What could not be read is dropped, and what is left is well-kinded. -/
theorem declaration_yields (he : e.Yields Expr.WellKinded) (hs : s.Yields Stmt.WellPlaced) :
    (declaration e s).Yields fun head => ∀ s ∈ head, s.WellKinded := by
  intro c
  have hread : (unrecovered e s c).Yields Stmt.WellKinded := by
    unfold unrecovered
    split
    · exact varDeclaration_yields he _
    · have h := hs c
      cases hc : s c with
      | done v c' errors => rw [hc] at h; exact h.2
      | stuck c' errors => trivial
      | endless => trivial
  rw [declaration_eq, recover_apply]
  -- a declaration that gets stuck leaves nothing in the list
  cases hc : unrecovered e s c with
  | done v c' errors =>
    rw [hc] at hread
    rintro _ ⟨⟩
    exact hread
  | stuck c' errors => rintro _ ⟨⟩
  | endless => trivial

theorem declarations_yields {d : Rule (Option Stmt)}
    (hd : d.Yields fun head => ∀ s ∈ head, s.WellKinded) (stop : Kind → Bool) :
    ∀ n, (declarations stop d n).Yields Stmt.AllWellKinded := by
  intro n
  induction n with
  | zero => intro c; trivial
  | succ n ih =>
    intro c
    rw [declarations, stopped_bind]
    split
    · trivial
    · refine (hd c).bind fun head c₁ hhead => (ih c₁).bind fun tail c₂ htail => ?_
      cases head with
      | none => exact htail
      | some s => exact ⟨hhead s rfl, htail⟩

theorem statement_yields (he : e.Yields Expr.WellKinded) :
    ∀ n, (statement e n).Yields Stmt.WellPlaced := by
  intro n
  induction n with
  | zero => intro c; trivial
  | succ n ih =>
    intro c
    by_cases hfor : c.peek.kind = .keyword .for
    · rw [statement_of_for e hfor]; exact forStatement_yields he ih _
    by_cases hif : c.peek.kind = .keyword .if
    · rw [statement_of_if e hif]; exact ifStatement_yields he ih _
    by_cases hprint : c.peek.kind = .keyword .print
    · rw [statement_of_print e n hprint]; exact printStatement_yields he _
    by_cases hwhile : c.peek.kind = .keyword .while
    · rw [statement_of_while e hwhile]; exact whileStatement_yields he ih _
    by_cases hblock : c.peek.kind = .symbol .leftBrace
    · rw [statement_of_block e hblock]
      refine (declarations_yields (declaration_yields he ih) _ _ _).bind fun body _ hbody => ?_
      exact yields_skip fun _ => ⟨rfl, hbody⟩
    · rw [statement_of_other e n (by simp [hfor, hif, hprint, hwhile, hblock])]
      exact expressionStatement_yields he c

end Rule

/-- **Parsing builds well-kinded trees**, from every stream on which it has an answer, with or
without errors. -/
theorem parse?_wellKinded {tokens : List Token} {parsed : Parse} (h : parse? tokens = some parsed) :
    ∀ s ∈ parsed.statements, s.WellKinded := by
  rw [← Stmt.allWellKinded_iff]
  unfold parse? at h
  split at h
  · cases h; trivial
  · rename_i last _
    have hyields := Rule.declarations_yields (Rule.declaration_yields
      (Rule.expression_yields (tokens.length + 1))
      (Rule.statement_yields (Rule.expression_yields (tokens.length + 1)) (tokens.length + 1)))
      (fun _ => false) (tokens.length + 1) ⟨tokens, last⟩
    split at h
    · rename_i statements c errors hread
      cases h
      rw [Rule.program] at hread
      rw [hread] at hyields
      exact hyields
    · cases h; trivial
    · cases h

end Scriptlet
