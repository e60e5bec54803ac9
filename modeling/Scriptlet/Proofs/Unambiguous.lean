import Scriptlet.Proofs.Forms
import Scriptlet.Proofs.Lexemes
import Scriptlet.Proofs.Culprits

/-!
# Printed trees are told apart

A tree is shown as nested lists of words.  The words are lexemes of tokens, and literals written as
such; a lexeme says what token it is, and nested lists are determined by their text.  So a tree that
comes from a source can be read off what is shown of it, and nothing is lost but lines.

* `Expr.form`, `Stmt.form` : a tree as nested lists, whose text is that of the tree;
* `Form.expr?`, `Form.stmt?` : the tree that nested lists show;
* `Expr.Legible`, `Stmt.Legible` : a tree is shown so that it can be read off, with a lemma for each
  kind of tree;
* `Grammar.Derivation.legible` : **what is derived from scanned tokens is legible**, if its numbers
  are finite;
* `printed_trees_are_told_apart` : **statements of sources that are shown alike are the same**, but
  for lines.
-/

namespace Scriptlet

/-! ### Lexemes as atoms -/

section Atoms

open Segment

theorem Form.isPlain_of_class {p : Char → Bool} {c : Char} (h : p c = true)
    (hp : [' ', '(', ')', '"'].all (fun d => !p d) = true) : isPlain c = true := by
  simpa [isPlain, and_assoc] using not_mem_of_class h hp

/-- The lexeme of a token other than a symbol is an atom. -/
theorem Token.Scanned.proper_atom {t : Token} (h : t.Scanned) (hkind : ∀ s, t.kind ≠ .symbol s) :
    (Form.atom t.lexeme).Proper := by
  obtain ⟨s, rest, hstands, hlexeme, hmeans⟩ := h.exists_isTokenOf
  have hne : String.ofList s.text ≠ "" := by simpa using hstands.text_ne_nil
  rw [hlexeme]
  generalize t.kind = kind at hkind hmeans
  rcases hstands with hproper | ⟨c, rfl, -⟩
  swap
  · cases hmeans
  cases hproper with
  | @string body _ hbody =>
    refine .inr ⟨String.ofList body, ?_, by simpa using hbody⟩
    simp [Segment.text, String.append_assoc]
  | @number whole fraction _ _ hwhole hfraction =>
    have hmem : ∀ c ∈ (number whole fraction).text, c ∈ whole ∨ c = '.' ∨ c ∈ fraction := by
      cases fraction <;> simp +contextual [Segment.text]
    refine .inl ⟨hne, List.all_eq_true.2 fun c hc => ?_⟩
    refine Form.isPlain_of_class (p := fun c => c.isDigit || c == '.') ?_ (by decide)
    rcases hmem c (by simpa using hc) with hc | rfl | hc
    · simp [hwhole c hc]
    · rfl
    · simp [hfraction c hc]
  | @word c name _ hstart hname =>
    refine .inl ⟨hne, List.all_eq_true.2 fun d hd => ?_⟩
    refine Form.isPlain_of_class (p := isWordPart) ?_ (by decide)
    rw [String.toList_ofList] at hd
    rcases List.mem_cons.1 hd with rfl | hd
    · exact isWordPart_iff.2 (hstart.imp_right .inr)
    · exact isWordPart_iff.2 (hname d hd)
  | operator =>
    cases hmeans
    exact absurd rfl (hkind _)
  | _ => cases hmeans

end Atoms

/-! ### Trees as forms -/

/-- An expression as nested lists. -/
def Expr.form : Expr → Form
  | literal v => .atom (literal v).text
  | grouping inner => .list "group" [inner.form]
  | unary operator operand => .list operator.lexeme [operand.form]
  | binary left operator right => .list operator.lexeme [left.form, right.form]
  | logical left operator right => .list operator.lexeme [left.form, right.form]
  | reference name => .atom name.lexeme
  | assign name value => .list "=" [.atom name.lexeme, value.form]

theorem Expr.text_form (e : Expr) : e.form.text = e.text := by
  induction e with
  | literal v => rfl
  | reference name => rfl
  | grouping inner ih | unary operator inner ih | assign name inner ih =>
    simp [form, text, Form.text, Form.listText, ih, ← String.append_assoc]
  | binary left operator right ihl ihr | logical left operator right ihl ihr =>
    simp [form, text, Form.text, Form.listText, ihl, ihr, ← String.append_assoc]

namespace Stmt

mutual

/-- A statement as nested lists. -/
def form : Stmt → Form
  | print value => .list "print" [value.form]
  | expression e => .list ";" [e.form]
  | var name none => .list "var" [.atom name.lexeme]
  | var name (some init) => .list "var" [.atom name.lexeme, init.form]
  | block body => .list "block" (forms body)
  | branch condition yes none => .list "if" [condition.form, yes.form]
  | branch condition yes (some no) => .list "if" [condition.form, yes.form, no.form]
  | loop condition body => .list "while" [condition.form, body.form]
termination_by structural s => s

/-- Statements as nested lists. -/
def forms : List Stmt → List Form
  | [] => []
  | s :: rest => s.form :: forms rest
termination_by structural body => body

end

mutual

/-- The nested lists of a statement are what is shown of it. -/
theorem text_form : ∀ s : Stmt, s.form.text = s.text
  | .print _ | .expression _ | .var _ none | .var _ (some _) => by
    simp [form, text, Form.text, Form.listText, Expr.text_form, ← String.append_assoc]
  | .block body => by simp [form, text, Form.text, listText_forms body]
  | .branch _ yes none => by
    simp [form, text, Form.text, Form.listText, Expr.text_form, text_form yes,
      ← String.append_assoc]
  | .branch _ yes (some no) => by
    simp [form, text, Form.text, Form.listText, Expr.text_form, text_form yes, text_form no,
      ← String.append_assoc]
  | .loop _ body => by
    simp [form, text, Form.text, Form.listText, Expr.text_form, text_form body,
      ← String.append_assoc]
termination_by structural s => s

theorem listText_forms : ∀ body : List Stmt, Form.listText (forms body) = listText body
  | [] => rfl
  | s :: rest => by rw [forms, Form.listText, listText, text_form s, listText_forms rest]
termination_by structural body => body

end

end Stmt

/-! ### Reading forms -/

/-- The expression that a token alone is: the value that it stands for, or a variable. -/
def Token.leaf (t : Token) : Expr :=
  match t.kind.literal? with
  | some v => .literal v
  | none => .reference t

namespace Form

/-- The expression that a form shows. -/
def expr? : Form → Option Expr
  | atom text => (Token.ofText? text).map Token.leaf
  | list "group" [inner] => inner.expr?.map .grouping
  | list "=" [atom name, value] => do return .assign (← Token.ofText? name) (← value.expr?)
  -- a minus is before an operand or between two, by the number of items
  | list head [operand] => do return .unary (← Token.ofText? head) (← operand.expr?)
  | list head [left, right] => do
    let operator ← Token.ofText? head
    let node := if operator.kind.isLogical then Expr.logical else .binary
    return node (← left.expr?) operator (← right.expr?)
  | _ => none

mutual

/-- The statement that a form shows. -/
def stmt? : Form → Option Stmt
  | list "print" [value] => value.expr?.map .print
  | list ";" [e] => e.expr?.map .expression
  | list "var" [atom name] => (Token.ofText? name).map (.var · none)
  | list "var" [atom name, init] => do return .var (← Token.ofText? name) (← init.expr?)
  | list "block" body => (stmts? body).map .block
  | list "if" [condition, yes] => do return .branch (← condition.expr?) (← yes.stmt?) none
  | list "if" [condition, yes, no] =>
    do return .branch (← condition.expr?) (← yes.stmt?) (← no.stmt?)
  | list "while" [condition, body] => do return .loop (← condition.expr?) (← body.stmt?)
  | _ => none
termination_by structural f => f

/-- The statements that forms show. -/
def stmts? : List Form → Option (List Stmt)
  | [] => some []
  | f :: rest => do return (← f.stmt?) :: (← stmts? rest)
termination_by structural items => items

end

theorem expr?_unary {head : String} (h : head ≠ "group") (operand : Form) :
    (list head [operand]).expr? =
      do return .unary (← Token.ofText? head) (← operand.expr?) := by
  rw [expr?]
  exact h

theorem expr?_binary {head : String} (h : head ≠ "=") (left right : Form) :
    (list head [left, right]).expr? =
      do
        let operator ← Token.ofText? head
        let node := if operator.kind.isLogical then Expr.logical else .binary
        return node (← left.expr?) operator (← right.expr?) := by
  rw [expr?]
  exact fun _ hhead _ => h hhead

end Form

/-! ### Legible expressions -/

/-- The form of an expression is a proper one, and it shows the expression. -/
structure Expr.Legible (e : Expr) : Prop where
  /-- Its words are words. -/
  proper : e.form.Proper
  /-- The expression is read off, but for its lines. -/
  expr?_form : e.form.expr? = some (e.mapLines noLine)

/-- The numbers in an expression. -/
def Expr.numbers : Expr → List Float
  | literal (.number x) => [x]
  | literal _ | reference _ => []
  | grouping inner => inner.numbers
  | unary _ operand => operand.numbers
  | binary left _ right | logical left _ right => left.numbers ++ right.numbers
  | assign _ value => value.numbers

/-- No number in an expression is infinite. -/
def Expr.Finite (e : Expr) : Prop := ∀ x ∈ e.numbers, x.isInf = false

instance (e : Expr) : Decidable e.Finite := inferInstanceAs (Decidable (∀ x ∈ e.numbers, _))

/-- A literal is written as a token that stands for its value. -/
theorem Token.Scanned.exists_literal {t : Token} (ht : t.Scanned) {v : Value}
    (hv : t.kind.literal? = some v) (hfinite : (Expr.literal v).Finite) :
    ∃ u : Token, u.Scanned ∧ u.kind.literal? = some v ∧ u.lexeme = (Expr.literal v).text := by
  obtain ⟨s, rest, -, hlexeme, hmeans⟩ := ht.exists_isTokenOf
  obtain ⟨kind, lexeme, line⟩ := t
  subst hlexeme
  cases hmeans with
  | string =>
    cases hv
    exact ⟨_, ht, rfl, by simp [Segment.text, Expr.text, String.append_assoc]⟩
  | number =>
    cases hv
    exact ⟨_, scanned_number (hfinite _ (by simp [Expr.numbers])), rfl, rfl⟩
  | keyword k hk =>
    refine ⟨_, ht, hv, hk.symm.trans ?_⟩
    cases k <;> first | cases hv; rfl | cases hv
  | identifier => cases hv
  | operator => cases hv

namespace Expr.Legible

open Grammar

variable {t : Token} {e left right : Expr}

theorem literal (ht : t.Scanned) {v : Value} (hv : t.kind.literal? = some v)
    (hfinite : (Expr.literal v).Finite) : (Expr.literal v).Legible := by
  obtain ⟨u, hu, huv, hlexeme⟩ := ht.exists_literal hv hfinite
  have hform : (Expr.literal v).form = .atom u.lexeme := by rw [form, hlexeme]
  refine ⟨?_, ?_⟩
  · rw [hform]
    refine hu.proper_atom fun s hs => ?_
    rw [hs] at huv
    cases huv
  · rw [hform, Form.expr?, hu.ofText?]
    simp [Token.leaf, Token.mapLine, huv, mapLines]

theorem reference (ht : t.Scanned) {name : String} (hname : t.kind = .identifier name) :
    (Expr.reference t).Legible := by
  refine ⟨ht.proper_atom (by simp [hname]), ?_⟩
  rw [form, Form.expr?, ht.ofText?]
  simp [Token.leaf, Token.mapLine, hname, Kind.literal?, mapLines]

theorem grouping (he : e.Legible) : (Expr.grouping e).Legible := by
  refine ⟨⟨by decide, he.proper, trivial⟩, ?_⟩
  rw [form, Form.expr?, he.expr?_form]
  rfl

theorem assign (ht : t.Scanned) {name : String} (hname : t.kind = .identifier name)
    (he : e.Legible) : (Expr.assign t e).Legible := by
  refine ⟨⟨by decide, ht.proper_atom (by simp [hname]), he.proper, trivial⟩, ?_⟩
  rw [form, Form.expr?, ht.ofText?, he.expr?_form]
  rfl

theorem unary (ht : t.Scanned) (hkind : t.kind ∈ unaryOperators) (he : e.Legible) :
    (Expr.unary t e).Legible := by
  have hall : ∀ k ∈ unaryOperators, k.isFixed = true ∧ Form.Plain k.name ∧ k.name ≠ "group" := by
    decide
  obtain ⟨hfixed, hplain, hne⟩ := hall _ hkind
  rw [← ht.lexeme_eq_name hfixed] at hplain hne
  refine ⟨⟨hplain, he.proper, trivial⟩, ?_⟩
  rw [form, Form.expr?_unary hne, ht.ofText?, he.expr?_form]
  rfl

theorem node {l : Level} (ht : t.Scanned) (hkind : t.kind ∈ operators l) (hleft : left.Legible)
    (hright : right.Legible) : (node l left t right).Legible := by
  have hall : ∀ k ∈ operators l, k.isFixed = true ∧ Form.Plain k.name ∧ k.name ≠ "=" := by
    cases l <;> decide
  have hnode : ∀ k ∈ operators l,
      (if k.isLogical then Expr.logical else .binary) = Grammar.node l := by
    cases l <;> simp [operators, Kind.isLogical, Grammar.node]
  have hform : (Grammar.node l left t right).form = .list t.lexeme [left.form, right.form] := by
    cases l <;> rfl
  have hlines : (Grammar.node l left t right).mapLines noLine =
      Grammar.node l (left.mapLines noLine) (t.mapLine noLine) (right.mapLines noLine) := by
    cases l <;> rfl
  -- which operator it is tells which tree it is, and none is written like an assignment
  obtain ⟨hfixed, hplain, hne⟩ := hall _ hkind
  rw [← ht.lexeme_eq_name hfixed] at hplain hne
  refine ⟨?_, ?_⟩
  · rw [hform]
    exact ⟨hplain, hleft.proper, hright.proper, trivial⟩
  · rw [hform, hlines, ← hnode _ hkind, Form.expr?_binary hne, ht.ofText?, hleft.expr?_form,
      hright.expr?_form]
    rfl

end Expr.Legible

/-- An expression of scanned tokens is legible. -/
theorem Grammar.ExprDerivation.legible {r : Rank} (d : ExprDerivation r) :
    (∀ t ∈ d.tokens, t.Scanned) → d.tree.Finite → d.tree.Legible := by
  induction d with
  | assign name equal value ih =>
    intro htokens hfinite
    obtain ⟨n, hn⟩ := name.property
    exact .assign (htokens _ (by simp [tokens])) hn
      (ih (fun t ht => htokens t (by simp [tokens, ht])) hfinite)
  | operand e ih | first e ih | bare e ih => exact ih
  | @more l left operator right ihl ihr =>
    intro htokens hfinite
    have hnumbers : (node l left.tree operator right.tree).numbers =
        left.tree.numbers ++ right.tree.numbers := by
      cases l <;> rfl
    rw [tree, Expr.Finite, hnumbers] at hfinite
    exact .node (htokens _ (by simp [tokens])) operator.property
      (ihl (fun t ht => htokens t (by simp [tokens, ht])) fun x hx => hfinite x (by simp [hx]))
      (ihr (fun t ht => htokens t (by simp [tokens, ht])) fun x hx => hfinite x (by simp [hx]))
  | unary operator e ih =>
    intro htokens hfinite
    exact .unary (htokens _ (by simp [tokens])) operator.property
      (ih (fun t ht => htokens t (by simp [tokens, ht])) hfinite)
  | number t | string t | true t | false t | nil t =>
    intro htokens hfinite
    exact .literal (htokens t (by simp [tokens])) (by rw [t.property]; rfl) hfinite
  | reference name =>
    intro htokens _
    obtain ⟨n, hn⟩ := name.property
    exact .reference (htokens _ (by simp [tokens])) hn
  | group opening e closing ih =>
    intro htokens hfinite
    exact .grouping (ih (fun t ht => htokens t (by simp [tokens, ht])) hfinite)

/-! ### Legible statements -/

namespace Stmt

/-- The form of a statement is a proper one, and it shows the statement. -/
structure Legible (s : Stmt) : Prop where
  /-- Its words are words. -/
  proper : s.form.Proper
  /-- The statement is read off, but for its lines. -/
  stmt?_form : s.form.stmt? = some (s.mapLines noLine)

/-- No number in a statement is infinite. -/
def Finite (s : Stmt) : Prop := ∀ e ∈ s.exprs, e.Finite

instance (s : Stmt) : Decidable s.Finite := inferInstanceAs (Decidable (∀ e ∈ s.exprs, _))

theorem allExprs_eq (body : List Stmt) : allExprs body = body.flatMap exprs := by
  induction body with
  | nil => rfl
  | cons s rest ih => rw [allExprs, ih, List.flatMap_cons]

theorem Finite.of_mem {body : List Stmt} (h : (block body).Finite) : ∀ s ∈ body, s.Finite := by
  intro s hs e he
  refine h e ?_
  rw [exprs, allExprs_eq]
  exact List.mem_flatMap.2 ⟨s, hs, he⟩

/-- What the form of a statement shows is made of what the forms of its parts show. -/
theorem stmt?_form (s : Stmt) : s.form.stmt? = match s with
    | .print value => value.form.expr?.map .print
    | .expression e => e.form.expr?.map .expression
    | .var name none => (Token.ofText? name.lexeme).map (.var · none)
    | .var name (some init) =>
      do return .var (← Token.ofText? name.lexeme) (← init.form.expr?)
    | .block body => (Form.stmts? (forms body)).map .block
    | .branch condition yes none =>
      do return .branch (← condition.form.expr?) (← yes.form.stmt?) none
    | .branch condition yes (some no) =>
      do return .branch (← condition.form.expr?) (← yes.form.stmt?) (← no.form.stmt?)
    | .loop condition body => do return .loop (← condition.form.expr?) (← body.form.stmt?) := by
  cases s with
  | var name init => cases init <;> rw [form, Form.stmt?]
  | branch condition yes no => cases no <;> rw [form, Form.stmt?]
  | _ => rw [form, Form.stmt?]

theorem forms_legible {body : List Stmt} (h : ∀ s ∈ body, s.Legible) :
    Form.AllProper (forms body) ∧ Form.stmts? (forms body) = some (mapAllLines noLine body) := by
  induction body with
  | nil => exact ⟨trivial, rfl⟩
  | cons s rest ih =>
    obtain ⟨hproper, hshows⟩ := h s List.mem_cons_self
    obtain ⟨hpropers, hshow⟩ := ih fun t ht => h t (List.mem_cons_of_mem _ ht)
    refine ⟨⟨hproper, hpropers⟩, ?_⟩
    rw [forms, Form.stmts?, hshows, hshow]
    rfl

namespace Legible

variable {condition e : Expr} {yes no s : Stmt} {body : List Stmt} {t : Token}

theorem print (he : e.Legible) : (Stmt.print e).Legible := by
  refine ⟨⟨by decide, he.proper, trivial⟩, ?_⟩
  rw [Stmt.stmt?_form]
  simp only [he.expr?_form]
  rfl

theorem expression (he : e.Legible) : (Stmt.expression e).Legible := by
  refine ⟨⟨by decide, he.proper, trivial⟩, ?_⟩
  rw [Stmt.stmt?_form]
  simp only [he.expr?_form]
  rfl

theorem var (ht : t.Scanned) {name : String} (hname : t.kind = .identifier name) :
    (Stmt.var t none).Legible := by
  refine ⟨⟨by decide, ht.proper_atom (by simp [hname]), trivial⟩, ?_⟩
  rw [Stmt.stmt?_form]
  simp only [ht.ofText?]
  rfl

theorem varWith (ht : t.Scanned) {name : String} (hname : t.kind = .identifier name)
    (he : e.Legible) : (Stmt.var t (some e)).Legible := by
  refine ⟨⟨by decide, ht.proper_atom (by simp [hname]), he.proper, trivial⟩, ?_⟩
  rw [Stmt.stmt?_form]
  simp only [ht.ofText?, he.expr?_form]
  rfl

theorem block (h : ∀ s ∈ body, s.Legible) : (Stmt.block body).Legible := by
  obtain ⟨hproper, hshows⟩ := forms_legible h
  refine ⟨⟨by decide, hproper⟩, ?_⟩
  rw [Stmt.stmt?_form]
  simp only [hshows]
  rfl

theorem ifOnly (hcondition : condition.Legible) (hyes : yes.Legible) :
    (Stmt.branch condition yes none).Legible := by
  refine ⟨⟨by decide, hcondition.proper, hyes.proper, trivial⟩, ?_⟩
  rw [Stmt.stmt?_form]
  simp only [hcondition.expr?_form, hyes.stmt?_form]
  rfl

theorem ifElse (hcondition : condition.Legible) (hyes : yes.Legible) (hno : no.Legible) :
    (Stmt.branch condition yes (some no)).Legible := by
  refine ⟨⟨by decide, hcondition.proper, hyes.proper, hno.proper, trivial⟩, ?_⟩
  rw [Stmt.stmt?_form]
  simp only [hcondition.expr?_form, hyes.stmt?_form, hno.stmt?_form]
  rfl

theorem loop (hcondition : condition.Legible) (hs : s.Legible) :
    (Stmt.loop condition s).Legible := by
  refine ⟨⟨by decide, hcondition.proper, hs.proper, trivial⟩, ?_⟩
  rw [Stmt.stmt?_form]
  simp only [hcondition.expr?_form, hs.stmt?_form]
  rfl

end Legible

end Stmt

/-! ### Legible programs -/

namespace Grammar

variable {init : Option Stmt} {condition increment : Option Expr} {body : Stmt}

theorem legible_true : (Expr.literal (.boolean true)).Legible := by
  have hstands : Segment.Stands (.word ['t', 'r', 'u', 'e']) [] :=
    .inl (.word (.inl (by decide)) (by simp; decide))
  have hkind : Segment.kind? (.word ['t', 'r', 'u', 'e']) = some (.keyword .true) := by decide
  exact .literal (Token.scanned_of_segment hstands hkind) rfl nofun

/-- A `for` loop is legible if its clauses and its body are. -/
theorem legible_forTree (hinit : ∀ s ∈ init, s.Legible) (hcondition : ∀ e ∈ condition, e.Legible)
    (hincrement : ∀ e ∈ increment, e.Legible) (hbody : body.Legible) :
    (forTree init condition increment body).Legible := by
  have hcondition : (condition.getD (.literal (.boolean true))).Legible := by
    cases condition with
    | none => exact legible_true
    | some e => exact hcondition e rfl
  have hpair : ∀ {s t : Stmt}, s.Legible → t.Legible → (Stmt.block [s, t]).Legible := by
    intro s t hs ht
    exact .block (by simp [hs, ht])
  cases increment with
  | none =>
    cases init with
    | none => exact .loop hcondition hbody
    | some s => exact hpair (hinit s rfl) (.loop hcondition hbody)
  | some e =>
    have hround := hpair hbody (.expression (hincrement e rfl))
    cases init with
    | none => exact .loop hcondition hround
    | some s => exact hpair (hinit s rfl) (.loop hcondition hround)

theorem finite_forTree (h : (forTree init condition increment body).Finite) :
    (∀ s ∈ init, s.Finite) ∧ (∀ e ∈ condition, e.Finite) ∧ (∀ e ∈ increment, e.Finite) ∧
      body.Finite := by
  simp only [Stmt.Finite] at h ⊢
  cases init <;> cases condition <;> cases increment <;>
    simp [forTree, Stmt.exprs, Stmt.allExprs] at h ⊢ <;> grind

theorem VarDeclaration.legible (d : VarDeclaration) (htokens : ∀ t ∈ d.tokens, t.Scanned)
    (hfinite : d.tree.Finite) : d.tree.Legible := by
  obtain ⟨start, name, init, finish⟩ := d
  obtain ⟨n, hn⟩ := name.property
  have hname : name.val.Scanned := htokens _ (by simp [tokens])
  cases init with
  | none => exact .var hname hn
  | some init =>
    refine .varWith hname hn (init.2.legible (fun t ht => htokens t ?_) (hfinite _ ?_))
    · simp [tokens, initTokens, ht]
    · simp [tree, Stmt.exprs]

theorem ForInit.legible (init : ForInit) (htokens : ∀ t ∈ init.tokens, t.Scanned) :
    ∀ s ∈ init.tree, s.Finite → s.Legible := by
  intro s hs hfinite
  cases init with
  | none finish => cases hs
  | var d =>
    cases hs
    exact d.legible htokens hfinite
  | expression e finish =>
    cases hs
    exact .expression (e.legible (fun t ht => htokens t (by simp [tokens, ht]))
      (hfinite _ (by simp [Stmt.exprs])))

theorem legible_optional {clause : Option Expression}
    (htokens : ∀ t ∈ optionalTokens clause, t.Scanned) :
    ∀ e ∈ clause.map (·.tree), e.Finite → e.Legible := by
  intro e he hfinite
  cases clause with
  | none => cases he
  | some clause =>
    cases he
    exact clause.legible htokens hfinite

/-- The statements of a phrase are legible, those without infinite numbers. -/
def Phrase.Legible : {p : Phrase} → p.Tree → Prop
  | .program, body => ∀ s ∈ (show List Stmt from body), s.Finite → s.Legible
  | .declaration, s | .statement, s => Stmt.Finite s → Stmt.Legible s

/-- **What is derived from scanned tokens is legible**, if its numbers are finite. -/
theorem Derivation.legible {p : Phrase} (d : Derivation p) :
    (∀ t ∈ d.tokens, t.Scanned) → Phrase.Legible d.tree := by
  induction d with
  | empty => exact fun _ => nofun
  | cons d rest ih ihs =>
    intro htokens s hs hfinite
    rcases List.mem_cons.1 hs with rfl | hs
    · exact ih (fun t ht => htokens t (by simp [tokens, ht])) hfinite
    · exact ihs (fun t ht => htokens t (by simp [tokens, ht])) s hs hfinite
  | var d => exact d.legible
  | statement s ih => exact ih
  | expression e finish =>
    intro htokens hfinite
    exact .expression (e.legible (fun t ht => htokens t (by simp [tokens, ht]))
      (hfinite _ List.mem_cons_self))
  | print start e finish =>
    intro htokens hfinite
    exact .print (e.legible (fun t ht => htokens t (by simp [tokens, ht]))
      (hfinite _ List.mem_cons_self))
  | block opening body closing ih =>
    intro htokens hfinite
    exact .block fun s hs => ih (fun t ht => htokens t (by simp [tokens, ht])) s hs
      (Stmt.Finite.of_mem hfinite s hs)
  | ifOnly start opening condition closing yes ih =>
    intro htokens hfinite
    exact .ifOnly (condition.legible (fun t ht => htokens t (by simp [tokens, ht]))
        (hfinite _ List.mem_cons_self))
      (ih (fun t ht => htokens t (by simp [tokens, ht]))
        fun e he => hfinite e (List.mem_cons_of_mem _ he))
  | ifElse start opening condition closing yes otherwise no ih ih' =>
    intro htokens hfinite
    exact .ifElse (condition.legible (fun t ht => htokens t (by simp [tokens, ht]))
        (hfinite _ List.mem_cons_self))
      (ih (fun t ht => htokens t (by simp [tokens, ht]))
        fun e he => hfinite e (List.mem_cons_of_mem _ (List.mem_append_left _ he)))
      (ih' (fun t ht => htokens t (by simp [tokens, ht]))
        fun e he => hfinite e (List.mem_cons_of_mem _ (List.mem_append_right _ he)))
  | «while» start opening condition closing body ih =>
    intro htokens hfinite
    exact .loop (condition.legible (fun t ht => htokens t (by simp [tokens, ht]))
        (hfinite _ List.mem_cons_self))
      (ih (fun t ht => htokens t (by simp [tokens, ht]))
        fun e he => hfinite e (List.mem_cons_of_mem _ he))
  | «for» start opening init condition finish increment closing body ih =>
    intro htokens hfinite
    obtain ⟨hinit, hcondition, hincrement, hbody⟩ := finite_forTree hfinite
    refine legible_forTree (fun s hs => init.legible (fun t ht => htokens t ?_) s hs (hinit s hs))
      (fun e he => legible_optional (fun t ht => htokens t ?_) e he (hcondition e he))
      (fun e he => legible_optional (fun t ht => htokens t ?_) e he (hincrement e he))
      (ih (fun t ht => htokens t ?_) hbody) <;> simp [tokens, ht]

end Grammar

/-- The statements of a source are legible, if their numbers are finite. -/
theorem legible_of_check {source : String} {program : List Stmt}
    (h : check source = .program program) {s : Stmt} (hs : s ∈ program) (hfinite : s.Finite) :
    s.Legible := by
  obtain ⟨-, hparse⟩ := check_eq_program_iff.1 h
  obtain ⟨last, hlast, htokens, hinner⟩ := exists_end_scan source
  rw [htokens] at hparse
  obtain ⟨d, hd, -, rfl⟩ := exists_derivation_of_parse? hinner hlast hparse rfl
  exact d.legible (hd ▸ scanned_of_mem_scan source) s hs hfinite

/-- **Statements of sources that are shown alike are the same**, but for lines.  Take a statement of
a source without errors, and one of the same or of another source, and let no number in them be
infinite.  If they have the same text, then they are the same tree: with the same operators and
names at the same places, and with the same values. -/
theorem printed_trees_are_told_apart {a b : String} {p q : List Stmt} (ha : check a = .program p)
    (hb : check b = .program q) {s t : Stmt} (hs : s ∈ p) (ht : t ∈ q) (hsfinite : s.Finite)
    (htfinite : t.Finite) (h : s.text = t.text) : s.mapLines noLine = t.mapLines noLine := by
  have hslegible := legible_of_check ha hs hsfinite
  have htlegible := legible_of_check hb ht htfinite
  rw [← s.text_form, ← t.text_form] at h
  have hshown := hslegible.stmt?_form
  rw [Form.text_injective hslegible.proper htlegible.proper h, htlegible.stmt?_form] at hshown
  exact (Option.some.inj hshown).symm

/-- The statement `if (a == "(b)") print 1 - -0.5;`, with what is printed on a given line. -/
def branchOnText (line : Nat) : Stmt :=
  .branch (.binary (.reference ⟨.identifier "a", "a", 1⟩) ⟨.symbol .equalEqual, "==", 1⟩
      (.literal (.string "(b)")))
    (.print (.binary (.literal (.number (.ofBits 0x3FF0000000000000))) ⟨.symbol .minus, "-", line⟩
      (.unary ⟨.symbol .minus, "-", line⟩ (.literal (.number (.ofBits 0x3FE0000000000000))))))
    none

/-- A scan that gives its tokens, with two lexemes for its two numbers. -/
def branchOnTextScan (line : Nat) (one half : String) : Scan where
  tokens :=
    [⟨.keyword .if, "if", 1⟩, ⟨.symbol .leftParen, "(", 1⟩, ⟨.identifier "a", "a", 1⟩,
      ⟨.symbol .equalEqual, "==", 1⟩, ⟨.string "(b)", "\"(b)\"", 1⟩, ⟨.symbol .rightParen, ")", 1⟩,
      ⟨.keyword .print, "print", line⟩, ⟨.number (.ofBits 0x3FF0000000000000), one, line⟩,
      ⟨.symbol .minus, "-", line⟩, ⟨.symbol .minus, "-", line⟩,
      ⟨.number (.ofBits 0x3FE0000000000000), half, line⟩, ⟨.symbol .semicolon, ";", line⟩,
      ⟨.endOfFile, "", line⟩]
  errors := []

theorem check_branchOnText {source : String} {line : Nat} {one half : String}
    (h : scan source = branchOnTextScan line one half) :
    check source = .program [branchOnText line] := by
  refine check_eq_program_iff.2 ⟨by rw [h]; rfl, ?_⟩
  rw [h]
  rfl

/-- The statement is written in two ways, once over two lines and with more zeros in its numbers: it
is shown alike, and it is the same. -/
theorem branchOnText_shown_alike :
    ∃ s t : Stmt, check "if (a == \"(b)\") print 1 - -0.5;" = .program [s] ∧
      check "if ( a == \"(b)\" ) // again\n print 1.0 - - 00.50;" = .program [t] ∧
      s.text = "(if (== a \"(b)\") (print (- 1 (- 0.5))))" ∧ s.text = t.text ∧
      s.mapLines noLine = t.mapLines noLine := by
  have hone : scan "if (a == \"(b)\") print 1 - -0.5;" = branchOnTextScan 1 "1" "0.5" := by
    decide +kernel
  have htwo : scan "if ( a == \"(b)\" ) // again\n print 1.0 - - 00.50;" =
      branchOnTextScan 2 "1.0" "00.50" := by
    decide +kernel
  have hsame := printed_trees_are_told_apart (check_branchOnText hone) (check_branchOnText htwo)
    List.mem_cons_self List.mem_cons_self (by decide +kernel) (by decide +kernel) rfl
  exact ⟨_, _, check_branchOnText hone, check_branchOnText htwo, by decide +kernel, rfl, hsame⟩

end Scriptlet
