import Scriptlet.Text.WordSpans

/-!
# Word characters

Names are made of word characters: letters, numerals and the underscore. The class of a character
is decided by one function, so the three classes cannot overlap, and what a name may start with is a
matter of which classes a reader admits: letters only, or every word character but a decimal digit.
-/

namespace Scriptlet.Text

/-- A closed span of code points holds a character. -/
def spansHold (spans : List (Nat × Nat)) (c : Char) : Bool :=
  spans.any fun s => s.1 ≤ c.toNat && c.toNat ≤ s.2

/-- The three classes of characters that words are made of, beside the underscore. -/
inductive WordClass where
  | letter
  | decimal
  | numeral
deriving DecidableEq, Repr

namespace WordClass

/-- The class of a character, if it has one. -/
def of? (c : Char) : Option WordClass :=
  if c.toNat < 128 then
    if c.isAlpha then some letter else if c.isDigit then some decimal else none
  else if spansHold letterSpans c then some letter
  else if spansHold decimalSpans c then some decimal
  else if spansHold numeralSpans c then some numeral
  else none

end WordClass

/-- Letters of every script. -/
def isLetter (c : Char) : Bool := WordClass.of? c == some .letter

/-- Decimal digits of every script. -/
def isDecimal (c : Char) : Bool := WordClass.of? c == some .decimal

/-- Letters and numerals of every script. -/
def isAlphanumeric (c : Char) : Bool := (WordClass.of? c).isSome

/-- Characters that continue a word. -/
def isWordChar (c : Char) : Bool := isAlphanumeric c || c == '_'

/-- The value of a decimal digit of any script. -/
def decimalValue? (c : Char) : Option Nat :=
  if c.toNat < 128 then
    if c.isDigit then some (c.toNat - '0'.toNat) else none
  else
    (decimalSpans.find? fun s => s.1 ≤ c.toNat && c.toNat ≤ s.2).map fun s =>
      (c.toNat - s.1) % 10

theorem isAlphanumeric_of_isLetter {c : Char} (h : isLetter c = true) :
    isAlphanumeric c = true := by
  simp only [isLetter, beq_iff_eq] at h
  simp [isAlphanumeric, h]

theorem isDecimal_eq_false_of_isLetter {c : Char} (h : isLetter c = true) :
    isDecimal c = false := by
  simp only [isLetter, beq_iff_eq] at h
  simp [isDecimal, h]

end Scriptlet.Text
