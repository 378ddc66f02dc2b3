import Scriptlet.Diagnostic

/-!
# Values

Programs compute with numbers, texts and the null value; truth is 1 and falsehood is 0. The value
of a statement that failed is its diagnostic. A value made by a host program, which the language can
hold and show but not compute with, is known only by its type's name and its text.
-/

namespace Scriptlet

/-- A value of a running program. -/
inductive Value where
  | null
  | number (x : Float)
  | text (s : String)
  | failure (d : Diagnostic)
  | foreign (type shown : String)

namespace Value

/-- The number that stands for a truth value. -/
def ofBool (b : Bool) : Value := number (if b then 1.0 else 0.0)

/-- The name of a value's type. -/
def typeName : Value → String
  | null => "Null"
  | number _ => "Number"
  | text _ => "String"
  | failure _ => "Error"
  | foreign type _ => type

/-- The text that printing a value writes. -/
def toText : Value → String
  | null => "null"
  | number x => Number.plainText x
  | text s => s
  | failure d => d.text
  | foreign _ shown => shown

/-- A value as logs show it. -/
def describe : Value → String
  | null => "null"
  | number x => Number.exactText x
  | text s => Text.quoted s
  | failure d => d.describe
  | foreign _ shown => shown

/-- Null, zero and the empty text count as false. -/
def isTruthy : Value → Bool
  | null => false
  | number x => x != 0.0
  | text s => !s.isEmpty
  | failure _ => true
  | foreign _ _ => true

/-- Equality of values; numbers compare as numbers, so the two zeros are equal and not-a-number
equals nothing. -/
def same : Value → Value → Bool
  | null, null => true
  | number x, number y => x == y
  | text s, text t => s == t
  | failure d, failure e => d == e
  | foreign s t, foreign s' t' => s == s' && t == t'
  | _, _ => false

/-- A prompt echoes the value of a line unless it is null or a failure. -/
def isEchoed : Value → Bool
  | null => false
  | failure _ => false
  | _ => true

end Value

end Scriptlet
