import Scriptlet.Text.WordClass

/-!
# Lengths of lexemes

How far a lexeme that has begun goes on: each function takes the characters after the first and says
how many of them still belong. Numbers, words and comments are as long as they can be. A quoted text
ends at its first quote that is not doubled.
-/

namespace Scriptlet.Lexeme

/-- The length of the longest start of which every character satisfies `p`. -/
def run (p : Char → Bool) (cs : List Char) : Nat := (cs.takeWhile p).length

/-- The characters of a fraction: a point that a digit follows, and the digits. -/
def fractionLength : List Char → Nat
  | '.' :: c :: rest => if c.isDigit then 2 + run Char.isDigit rest else 0
  | _ => 0

/-- What follows the first digit of a number. -/
def numberLength (cs : List Char) : Nat :=
  let n := run Char.isDigit cs
  n + fractionLength (cs.drop n)

/-- What follows the first character of a word. -/
def wordLength (cs : List Char) : Nat := run Text.isWordChar cs

/-- What follows the first character of a comment: all up to the line break. -/
def commentLength (cs : List Char) : Nat := run (· != '\n') cs

/-- What follows the opening quote of a text, the closing quote included; none if it never closes. -/
def textLength? : List Char → Option Nat
  | [] => none
  | '"' :: '"' :: rest => (textLength? rest).map (· + 2)
  | '"' :: _ => some 1
  | _ :: rest => (textLength? rest).map (· + 1)

/-- The next character is the given one. -/
def startsWith (c : Char) (cs : List Char) : Bool := cs.head? == some c

/-- The next character is a digit. -/
def startsWithDigit (cs : List Char) : Bool := cs.head?.any Char.isDigit

end Scriptlet.Lexeme
