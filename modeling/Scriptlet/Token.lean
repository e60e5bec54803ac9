import Scriptlet.Value

/-!
# Tokens

A token is a piece of source text with the line on which it ends.  What it is, its kind, decides
how it is parsed and evaluated; its lexeme is the text itself, by which variables are looked up
and trees are shown.
-/

namespace Scriptlet

/-- Punctuation and operators. -/
inductive Symbol where
  | leftParen
  | rightParen
  | leftBrace
  | rightBrace
  | comma
  | dot
  | minus
  | plus
  | semicolon
  | slash
  | star
  | bang
  | bangEqual
  | equal
  | equalEqual
  | greater
  | greaterEqual
  | less
  | lessEqual
deriving Repr, DecidableEq

namespace Symbol

/-- How a symbol is written. -/
def text : Symbol → String
  | leftParen => "("
  | rightParen => ")"
  | leftBrace => "\x7b"
  | rightBrace => "\x7d"
  | comma => ","
  | dot => "."
  | minus => "-"
  | plus => "+"
  | semicolon => ";"
  | slash => "/"
  | star => "*"
  | bang => "!"
  | bangEqual => "!="
  | equal => "="
  | equalEqual => "=="
  | greater => ">"
  | greaterEqual => ">="
  | less => "<"
  | lessEqual => "<="

/-- All symbols. -/
def all : List Symbol :=
  [leftParen, rightParen, leftBrace, rightBrace, comma, dot, minus, plus, semicolon, slash, star,
    bang, bangEqual, equal, equalEqual, greater, greaterEqual, less, lessEqual]

/-- The symbol written by one character. -/
def ofChar? (c : Char) : Option Symbol := all.find? fun s => s.text.toList == [c]

/-- The symbol written by a character and an equals sign. -/
def withEqual? (c : Char) : Option Symbol := all.find? fun s => s.text.toList == [c, '=']

end Symbol

/-- Words that are no names. -/
inductive Keyword where
  | and
  | «class»
  | «else»
  | false
  | «for»
  | «fun»
  | «if»
  | nil
  | or
  | print
  | «return»
  | super
  | this
  | true
  | var
  | «while»
deriving Repr, DecidableEq

namespace Keyword

/-- How a keyword is written. -/
def text : Keyword → String
  | and => "and"
  | «class» => "class"
  | «else» => "else"
  | false => "false"
  | «for» => "for"
  | «fun» => "fun"
  | «if» => "if"
  | nil => "nil"
  | or => "or"
  | print => "print"
  | «return» => "return"
  | super => "super"
  | this => "this"
  | true => "true"
  | var => "var"
  | «while» => "while"

/-- All keywords. -/
def all : List Keyword :=
  [and, «class», «else», false, «for», «fun», «if», nil, or, print, «return», super, this, true,
    var, «while»]

/-- The keyword written by a word. -/
def ofText? (word : String) : Option Keyword := all.find? fun k => k.text == word

end Keyword

/-- What a token is, with what it carries. -/
inductive Kind where
  /-- Punctuation or an operator. -/
  | symbol (s : Symbol)
  /-- A keyword. -/
  | keyword (k : Keyword)
  /-- A name. -/
  | identifier (name : String)
  /-- A text literal, without its quotes. -/
  | string (text : String)
  /-- A number literal. -/
  | number (value : Float)
  /-- The end of the source. -/
  | endOfFile
deriving DecidableEq

namespace Kind

/-- How messages and listings call a kind. -/
def name : Kind → String
  | symbol s => s.text
  | keyword k => k.text
  | identifier _ => "identifier"
  | string _ => "string"
  | number _ => "number"
  | endOfFile => "end of file"

/-- Whether this is the end of the source. -/
def isEnd : Kind → Bool
  | endOfFile => true
  | _ => false

/-- Whether this is a certain symbol. -/
def isSymbol (s : Symbol) : Kind → Bool
  | symbol t => t == s
  | _ => false

/-- Whether this is a certain keyword. -/
def isKeyword (k : Keyword) : Kind → Bool
  | keyword l => l == k
  | _ => false

/-- Whether this is a name. -/
def isIdentifier : Kind → Bool
  | identifier _ => true
  | _ => false

/-- The value that a literal stands for. -/
def literal? : Kind → Option Value
  | keyword .nil => some .nil
  | keyword .true => some (.boolean true)
  | keyword .false => some (.boolean false)
  | string s => some (.string s)
  | number x => some (.number x)
  | _ => none

end Kind

/-- A token of the source. -/
structure Token where
  /-- What it is. -/
  kind : Kind
  /-- Its text. -/
  lexeme : String
  /-- The line on which it ends. -/
  line : Nat
deriving DecidableEq

/-- The value that a number or a text token carries. -/
def Token.payload? (t : Token) : Option Value :=
  match t.kind with
  | .number x => some (.number x)
  | .string s => some (.string s)
  | _ => none

end Scriptlet
