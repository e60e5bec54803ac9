import Scriptlet.Token
import Scriptlet.Text.Letter
import Scriptlet.Text.Numeral

/-!
# Segments of a source

A source is cut into segments without losing a character: blanks, comments, literals, words,
operators, and what is none of these.  At every place the segment is the longest one possible, so
two slashes start a comment, `!=` is one operator, and a point belongs to a number only if a digit
follows it.

* `Segment.text` is the text of a segment;
* `Segment.first` cuts one segment off;
* `Segment.split` cuts a whole text.
-/

namespace Scriptlet

/-- Characters between tokens that carry no meaning. -/
def isBlank (c : Char) : Bool := c == ' ' || c == '\t' || c == '\r' || c == '\n'

/-- Whether a word may start with a character. -/
def isWordStart (c : Char) : Bool := isLetter c || c == '_'

/-- Whether a word may go on with a character. -/
def isWordPart (c : Char) : Bool := isLetter c || isNumeral c || c == '_'

/-- A piece of source text. -/
inductive Segment where
  /-- One blank character. -/
  | blank (c : Char)
  /-- Two slashes and the rest of the line. -/
  | comment (body : List Char)
  /-- A text between quotes. -/
  | string (body : List Char)
  /-- Digits, and if the second list is not empty a point and those digits. -/
  | number (whole fraction : List Char)
  /-- A name or a keyword. -/
  | word (name : List Char)
  /-- Punctuation or an operator. -/
  | operator (s : Symbol)
  /-- A character that starts nothing. -/
  | stray (c : Char)
  /-- A quote that is never closed, and everything after it. -/
  | unterminated (body : List Char)
deriving DecidableEq

namespace Segment

/-- The text of a segment. -/
def text : Segment → List Char
  | blank c => [c]
  | comment body => '/' :: '/' :: body
  | string body => '"' :: (body ++ ['"'])
  | number whole [] => whole
  | number whole fraction => whole ++ '.' :: fraction
  | word name => name
  | operator s => s.text.toList
  | stray c => [c]
  | unterminated body => '"' :: body

/-- The segment that starts with a quote, and what follows it. -/
def quoted (cs : List Char) : Segment × List Char :=
  match cs.dropWhile (· != '"') with
  | [] => (unterminated cs, [])
  | _ :: rest => (string (cs.takeWhile (· != '"')), rest)

/-- The number that starts with the given digits, and what follows it. -/
def numeric (whole rest : List Char) : Segment × List Char :=
  match rest with
  | '.' :: more =>
    match more.takeWhile Char.isDigit with
    | [] => (number whole [], rest)
    | fraction => (number whole fraction, more.dropWhile Char.isDigit)
  | _ => (number whole [], rest)

/-- The segment that starts with a character that starts nothing else, and what follows it. -/
def mark (c : Char) (cs : List Char) : Segment × List Char :=
  match cs with
  | '/' :: rest =>
    if c == '/' then (comment (rest.takeWhile (· != '\n')), rest.dropWhile (· != '\n'))
    else single c cs
  | '=' :: rest =>
    match Symbol.withEqual? c with
    | some s => (operator s, rest)
    | none => single c cs
  | _ => single c cs
where
  /-- A segment of one character. -/
  single (c : Char) (cs : List Char) : Segment × List Char :=
    match Symbol.ofChar? c with
    | some s => (operator s, cs)
    | none => (stray c, cs)

/-- The first segment of the text `c :: cs`, and what follows it. -/
def first (c : Char) (cs : List Char) : Segment × List Char :=
  if isBlank c then (blank c, cs)
  else if c == '"' then quoted cs
  else if c.isDigit then
    numeric (c :: cs.takeWhile Char.isDigit) (cs.dropWhile Char.isDigit)
  else if isWordStart c then (word (c :: cs.takeWhile isWordPart), cs.dropWhile isWordPart)
  else mark c cs

/-! ### A segment takes at least one character -/

theorem length_dropWhile_le (p : Char → Bool) (cs : List Char) :
    (cs.dropWhile p).length ≤ cs.length :=
  (List.dropWhile_suffix p).length_le

theorem length_quoted_le (cs : List Char) : (quoted cs).2.length ≤ cs.length := by
  have := length_dropWhile_le (· != '"') cs
  unfold quoted
  split
  · simp
  · simp_all
    omega

theorem length_numeric_le (whole rest : List Char) :
    (numeric whole rest).2.length ≤ rest.length := by
  unfold numeric
  split
  · rename_i more
    have := length_dropWhile_le Char.isDigit more
    split
    · simp
    · simp
      omega
  · simp

theorem length_single_le (c : Char) (cs : List Char) :
    (mark.single c cs).2.length ≤ cs.length := by
  unfold mark.single
  split <;> simp

theorem length_mark_le (c : Char) (cs : List Char) : (mark c cs).2.length ≤ cs.length := by
  unfold mark
  split
  · rename_i rest
    have := length_dropWhile_le (· != '\n') rest
    split
    · simp_all
      omega
    · exact length_single_le ..
  · split
    · simp
    · exact length_single_le ..
  · exact length_single_le ..

theorem length_first_le (c : Char) (cs : List Char) : (first c cs).2.length ≤ cs.length := by
  unfold first
  split
  · simp
  · split
    · exact length_quoted_le cs
    · split
      · exact Nat.le_trans (length_numeric_le ..) (length_dropWhile_le ..)
      · split
        · exact length_dropWhile_le ..
        · exact length_mark_le c cs

/-- All segments of a text, in order. -/
def split : List Char → List Segment
  | [] => []
  | c :: cs => (first c cs).1 :: split (first c cs).2
termination_by text => text.length
decreasing_by
  have := length_first_le c cs
  simp only [List.length_cons]
  omega

end Segment

end Scriptlet
