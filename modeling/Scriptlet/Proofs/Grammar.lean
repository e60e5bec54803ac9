import Scriptlet.Parse.Expression

/-!
# The grammar

What a program may look like, said without a parser: a **derivation** is a tree of productions with
tokens at its leaves, which are matched by their kind alone.

    program     := declaration*
    declaration := var name [ = expression ] ; | statement
    statement   := for ( init [ expression ] ; [ expression ] ) statement
                 | if ( expression ) statement [ else statement ]
                 | print expression ; | while ( expression ) statement
                 | { declaration* } | expression ;
    init        := var name [ = expression ] ; | expression ; | ;
    expression  := name = expression | or
    or, and, equality, comparison, term, factor := operand ( operator operand )*
    unary       := ( ! | - ) unary | primary
    primary     := number | string | true | false | nil | name | ( expression )

* `ExprDerivation.tokens` and `Derivation.tokens` are the tokens that a derivation derives;
* `ExprDerivation.tree` and `Derivation.tree` are the tree that it stands for;
* `Derivation.NearestElse` is the one choice that the grammar leaves open: an `else` belongs to the
  nearest `if` that can still take one;
* `Derivation.exists_nearestElse` : **that can always be had.**

The operators of each level and the tree of a `for` loop are written out here once more, so that
this text can be read, and be wrong, on its own.
-/

namespace Scriptlet

namespace Grammar

/-- A token of a certain kind. -/
abbrev Tok (kind : Kind) := { t : Token // t.kind = kind }

/-- A token of one of several kinds. -/
abbrev OneOf (kinds : List Kind) := { t : Token // t.kind ∈ kinds }

/-- A name. -/
abbrev Name := { t : Token // ∃ name, t.kind = .identifier name }

/-! ### Expressions -/

/-- What tokens can be read as, among expressions. -/
inductive Rank where
  /-- Any expression. -/
  | expression
  /-- A chain of operands with operators of a level between them. -/
  | level (l : Level)
  /-- Operators before a primary. -/
  | unary
  /-- A literal, a name or a group. -/
  | primary

/-- The operators of a level. -/
def operators : Level → List Kind
  | .or => [.keyword .or]
  | .and => [.keyword .and]
  | .equality => [.symbol .equalEqual, .symbol .bangEqual]
  | .comparison =>
    [.symbol .greater, .symbol .greaterEqual, .symbol .less, .symbol .lessEqual]
  | .term => [.symbol .plus, .symbol .minus]
  | .factor => [.symbol .star, .symbol .slash]

/-- What the operands of a level are. -/
def operandOf : Level → Rank
  | .or => .level .and
  | .and => .level .equality
  | .equality => .level .comparison
  | .comparison => .level .term
  | .term => .level .factor
  | .factor => .unary

/-- The tree of an operator of a level and its operands. -/
def node : Level → Expr → Token → Expr → Expr
  | .or | .and => .logical
  | .equality | .comparison | .term | .factor => .binary

/-- The operators that stand before their operand. -/
def unaryOperators : List Kind := [.symbol .bang, .symbol .minus]

/-- A derivation of an expression.  The repetition in a chain is unrolled from its end, so that the
tree leans to the left. -/
inductive ExprDerivation : Rank → Type where
  | assign (name : Name) (equal : Tok (.symbol .equal)) (value : ExprDerivation .expression) :
    ExprDerivation .expression
  | operand (e : ExprDerivation (.level .or)) : ExprDerivation .expression
  | first {l : Level} (e : ExprDerivation (operandOf l)) : ExprDerivation (.level l)
  | more {l : Level} (left : ExprDerivation (.level l)) (operator : OneOf (operators l))
    (right : ExprDerivation (operandOf l)) : ExprDerivation (.level l)
  | unary (operator : OneOf unaryOperators) (e : ExprDerivation .unary) : ExprDerivation .unary
  | bare (e : ExprDerivation .primary) : ExprDerivation .unary
  | number {x : Float} (t : Tok (.number x)) : ExprDerivation .primary
  | string {s : String} (t : Tok (.string s)) : ExprDerivation .primary
  | true (t : Tok (.keyword .true)) : ExprDerivation .primary
  | false (t : Tok (.keyword .false)) : ExprDerivation .primary
  | nil (t : Tok (.keyword .nil)) : ExprDerivation .primary
  | reference (name : Name) : ExprDerivation .primary
  | group (opening : Tok (.symbol .leftParen)) (e : ExprDerivation .expression)
    (closing : Tok (.symbol .rightParen)) : ExprDerivation .primary

namespace ExprDerivation

/-- The tokens of a derivation. -/
def tokens {r : Rank} : ExprDerivation r → List Token
  | assign name equal value => name.val :: equal.val :: value.tokens
  | operand e | first e | bare e => e.tokens
  | more left operator right => left.tokens ++ operator.val :: right.tokens
  | unary operator e => operator.val :: e.tokens
  | number t | string t | true t | false t | nil t | reference t => [t.val]
  | group opening e closing => opening.val :: (e.tokens ++ [closing.val])

/-- The expression of a derivation. -/
def tree {r : Rank} : ExprDerivation r → Expr
  | assign name _ value => .assign name value.tree
  | operand e | first e | bare e => e.tree
  | more (l := l) left operator right => node l left.tree operator right.tree
  | unary operator e => .unary operator e.tree
  | number (x := x) _ => .literal (.number x)
  | string (s := s) _ => .literal (.string s)
  | true _ => .literal (.boolean Bool.true)
  | false _ => .literal (.boolean Bool.false)
  | nil _ => .literal .nil
  | reference name => .reference name
  | group _ e _ => .grouping e.tree

end ExprDerivation

/-- A derivation of any expression. -/
abbrev Expression := ExprDerivation .expression

/-- The tokens of an expression that may be missing. -/
def optionalTokens : Option Expression → List Token
  | none => []
  | some e => e.tokens

/-! ### Statements -/

/-- A declaration of a variable. -/
structure VarDeclaration where
  /-- The word that starts it. -/
  start : Tok (.keyword .var)
  /-- The variable. -/
  name : Name
  /-- Its first value, if it is given one. -/
  init : Option (Tok (.symbol .equal) × Expression)
  /-- The semicolon. -/
  finish : Tok (.symbol .semicolon)

namespace VarDeclaration

/-- The tokens of a first value. -/
def initTokens : Option (Tok (.symbol .equal) × Expression) → List Token
  | none => []
  | some (equal, e) => equal.val :: e.tokens

/-- The tokens of a declaration. -/
def tokens (d : VarDeclaration) : List Token :=
  d.start.val :: d.name.val :: (initTokens d.init ++ [d.finish.val])

/-- The statement of a declaration. -/
def tree (d : VarDeclaration) : Stmt := .var d.name (d.init.map fun i => i.2.tree)

end VarDeclaration

/-- The first clause of a `for` loop. -/
inductive ForInit where
  | none (finish : Tok (.symbol .semicolon))
  | var (d : VarDeclaration)
  | expression (e : Expression) (finish : Tok (.symbol .semicolon))

namespace ForInit

/-- The tokens of the clause. -/
def tokens : ForInit → List Token
  | none finish => [finish.val]
  | var d => d.tokens
  | expression e finish => e.tokens ++ [finish.val]

/-- The statement of the clause. -/
def tree : ForInit → Option Stmt
  | none _ => Option.none
  | var d => some d.tree
  | expression e _ => some (.expression e.tree)

end ForInit

/-- The tree of a `for` loop: the initializer in a block around the loop, the increment in a block
around the body, and no block for a clause that is missing. -/
def forTree : Option Stmt → Option Expr → Option Expr → Stmt → Stmt
  | none, condition, none, body => .loop (condition.getD (.literal (.boolean true))) body
  | none, condition, some increment, body =>
    .loop (condition.getD (.literal (.boolean true))) (.block [body, .expression increment])
  | some init, condition, none, body =>
    .block [init, .loop (condition.getD (.literal (.boolean true))) body]
  | some init, condition, some increment, body =>
    .block [init,
      .loop (condition.getD (.literal (.boolean true))) (.block [body, .expression increment])]

/-- What tokens can be read as, among statements. -/
inductive Phrase where
  /-- Any number of declarations. -/
  | program
  /-- A declaration of a variable, or a statement. -/
  | declaration
  /-- A statement. -/
  | statement

/-- What the tree of a phrase is. -/
def Phrase.Tree : Phrase → Type
  | program => List Stmt
  | declaration => Stmt
  | statement => Stmt

/-- A derivation of statements. -/
inductive Derivation : Phrase → Type where
  | empty : Derivation .program
  | cons (d : Derivation .declaration) (rest : Derivation .program) : Derivation .program
  | var (d : VarDeclaration) : Derivation .declaration
  | statement (s : Derivation .statement) : Derivation .declaration
  | expression (e : Expression) (finish : Tok (.symbol .semicolon)) : Derivation .statement
  | print (start : Tok (.keyword .print)) (e : Expression) (finish : Tok (.symbol .semicolon)) :
    Derivation .statement
  | block (opening : Tok (.symbol .leftBrace)) (body : Derivation .program)
    (closing : Tok (.symbol .rightBrace)) : Derivation .statement
  | ifOnly (start : Tok (.keyword .if)) (opening : Tok (.symbol .leftParen)) (condition : Expression)
    (closing : Tok (.symbol .rightParen)) (yes : Derivation .statement) : Derivation .statement
  | ifElse (start : Tok (.keyword .if)) (opening : Tok (.symbol .leftParen)) (condition : Expression)
    (closing : Tok (.symbol .rightParen)) (yes : Derivation .statement)
    (otherwise : Tok (.keyword .else)) (no : Derivation .statement) : Derivation .statement
  | while (start : Tok (.keyword .while)) (opening : Tok (.symbol .leftParen))
    (condition : Expression) (closing : Tok (.symbol .rightParen)) (body : Derivation .statement) :
    Derivation .statement
  | for (start : Tok (.keyword .for)) (opening : Tok (.symbol .leftParen)) (init : ForInit)
    (condition : Option Expression) (finish : Tok (.symbol .semicolon))
    (increment : Option Expression) (closing : Tok (.symbol .rightParen))
    (body : Derivation .statement) : Derivation .statement

namespace Derivation

/-- The tokens of a derivation. -/
def tokens {p : Phrase} : Derivation p → List Token
  | empty => []
  | cons d rest => d.tokens ++ rest.tokens
  | var d => d.tokens
  | statement s => s.tokens
  | expression e finish => e.tokens ++ [finish.val]
  | print start e finish => start.val :: (e.tokens ++ [finish.val])
  | block opening body closing => opening.val :: (body.tokens ++ [closing.val])
  | ifOnly start opening condition closing yes =>
    start.val :: opening.val :: (condition.tokens ++ closing.val :: yes.tokens)
  | ifElse start opening condition closing yes otherwise no =>
    start.val :: opening.val :: (condition.tokens ++ closing.val :: (yes.tokens ++
      otherwise.val :: no.tokens))
  | .while start opening condition closing body =>
    start.val :: opening.val :: (condition.tokens ++ closing.val :: body.tokens)
  | .for start opening init condition finish increment closing body =>
    start.val :: opening.val :: (init.tokens ++ (optionalTokens condition ++
      finish.val :: (optionalTokens increment ++ closing.val :: body.tokens)))

/-- The tree of a derivation. -/
def tree {p : Phrase} : Derivation p → p.Tree
  | empty => ([] : List Stmt)
  | cons d rest => List.cons (α := Stmt) d.tree rest.tree
  | var d => d.tree
  | statement s => s.tree
  | expression e _ => Stmt.expression e.tree
  | print _ e _ => Stmt.print e.tree
  | block _ body _ => Stmt.block body.tree
  | ifOnly _ _ condition _ yes => Stmt.branch condition.tree yes.tree none
  | ifElse _ _ condition _ yes _ no => Stmt.branch condition.tree yes.tree (some no.tree)
  | .while _ _ condition _ body => Stmt.loop condition.tree body.tree
  | .for _ _ init condition _ increment _ body =>
    forTree init.tree (condition.map (·.tree)) (increment.map (·.tree)) body.tree

/-- Whether a statement ends in an `if` that could still take an `else`. -/
def endsOpen {p : Phrase} : Derivation p → Bool
  | statement s => s.endsOpen
  | ifOnly .. => true
  | ifElse _ _ _ _ _ _ no => no.endsOpen
  | .while _ _ _ _ body => body.endsOpen
  | .for _ _ _ _ _ _ _ body => body.endsOpen
  | _ => false

/-- Every `else` belongs to the nearest `if` before it that can take one: no branch before an `else`
ends in an `if` without one. -/
def NearestElse {p : Phrase} : Derivation p → Prop
  | empty | var _ | expression .. | print .. => True
  | cons d rest => d.NearestElse ∧ rest.NearestElse
  | statement s => s.NearestElse
  | block _ body _ => body.NearestElse
  | ifOnly _ _ _ _ yes => yes.NearestElse
  | ifElse _ _ _ _ yes _ no => yes.endsOpen = false ∧ yes.NearestElse ∧ no.NearestElse
  | .while _ _ _ _ body => body.NearestElse
  | .for _ _ _ _ _ _ _ body => body.NearestElse

/-! ### The nearest `else` -/

/-- An `else` and its branch can be handed to the nearest `if` at the end of a statement. -/
theorem exists_takes_else (otherwise : Tok (.keyword .else)) (no : Derivation .statement)
    (hno : no.NearestElse) :
    ∀ d : Derivation .statement, d.endsOpen = true → d.NearestElse →
      ∃ d' : Derivation .statement,
        d'.tokens = d.tokens ++ otherwise.val :: no.tokens ∧ d'.NearestElse
  | .ifOnly start opening condition closing yes, _, hd => by
    by_cases hyes : yes.endsOpen = true
    · obtain ⟨d, htokens, hd'⟩ := exists_takes_else otherwise no hno yes hyes hd
      exact ⟨.ifOnly start opening condition closing d, by simp [tokens, htokens], hd'⟩
    · exact ⟨.ifElse start opening condition closing yes otherwise no, by simp [tokens],
        by simpa using hyes, hd, hno⟩
  | .ifElse start opening condition closing yes other branch, hopen, hd => by
    obtain ⟨d, htokens, hd'⟩ := exists_takes_else otherwise no hno branch hopen hd.2.2
    exact ⟨.ifElse start opening condition closing yes other d, by simp [tokens, htokens],
      hd.1, hd.2.1, hd'⟩
  | .while start opening condition closing body, hopen, hd => by
    obtain ⟨d, htokens, hd'⟩ := exists_takes_else otherwise no hno body hopen hd
    exact ⟨.while start opening condition closing d, by simp [tokens, htokens], hd'⟩
  | .for start opening init condition finish increment closing body, hopen, hd => by
    obtain ⟨d, htokens, hd'⟩ := exists_takes_else otherwise no hno body hopen hd
    exact ⟨.for start opening init condition finish increment closing d, by simp [tokens, htokens],
      hd'⟩

/-- **Whatever is derivable is derivable with the nearest `else`.** -/
theorem exists_nearestElse {p : Phrase} (d : Derivation p) :
    ∃ d' : Derivation p, d'.tokens = d.tokens ∧ d'.NearestElse := by
  induction d with
  | empty => exact ⟨.empty, rfl, trivial⟩
  | var d => exact ⟨.var d, rfl, trivial⟩
  | expression e finish => exact ⟨.expression e finish, rfl, trivial⟩
  | print start e finish => exact ⟨.print start e finish, rfl, trivial⟩
  | cons d ds ih ihs =>
    obtain ⟨d', htokens, hd'⟩ := ih
    obtain ⟨ds', htokens', hds'⟩ := ihs
    exact ⟨.cons d' ds', by simp [tokens, htokens, htokens'], hd', hds'⟩
  | statement s ih =>
    obtain ⟨d', htokens, hd'⟩ := ih
    exact ⟨.statement d', htokens, hd'⟩
  | block opening body closing ih =>
    obtain ⟨d', htokens, hd'⟩ := ih
    exact ⟨.block opening d' closing, by simp [tokens, htokens], hd'⟩
  | ifOnly start opening condition closing yes ih =>
    obtain ⟨d', htokens, hd'⟩ := ih
    exact ⟨.ifOnly start opening condition closing d', by simp [tokens, htokens], hd'⟩
  | ifElse start opening condition closing yes otherwise no ih ih' =>
    obtain ⟨y, htokens, hy⟩ := ih
    obtain ⟨d, htokens', hd⟩ := ih'
    by_cases hopen : y.endsOpen = true
    · -- the `else` moves inward, and the outer `if` has none
      obtain ⟨d', htaken, hd'⟩ := exists_takes_else otherwise d hd y hopen hy
      exact ⟨.ifOnly start opening condition closing d',
        by simp [tokens, htaken, htokens, htokens'], hd'⟩
    · exact ⟨.ifElse start opening condition closing y otherwise d,
        by simp [tokens, htokens, htokens'], by simpa using hopen, hy, hd⟩
  | «while» start opening condition closing body ih =>
    obtain ⟨d', htokens, hd'⟩ := ih
    exact ⟨.while start opening condition closing d', by simp [tokens, htokens], hd'⟩
  | «for» start opening init condition finish increment closing body ih =>
    obtain ⟨d', htokens, hd'⟩ := ih
    exact ⟨.for start opening init condition finish increment closing d',
      by simp [tokens, htokens], hd'⟩

end Derivation

end Grammar

end Scriptlet
