import Scriptlet.Json
import Scriptlet.Number.Numeral

/-!
# Reading JSON

The reader takes the characters of one JSON value and nothing else but blanks around it. Beyond the
standard it knows the words `NaN`, `Infinity` and `-Infinity`. It refuses values nested deeper than
the levels it is given, and integers with very many digits; of several faults the first in the text
counts. Each call consumes a character or more, so the number of characters bounds the calls; `read`
passes it along and shows none of it.
-/

namespace Scriptlet.Json

/-- Why a text is not read as JSON. -/
inductive ReadError where
  | malformed
  | tooDeep
  | integerTooLong (digits : Nat)
deriving DecidableEq, Repr

/-- The digits that an integer may have. -/
def maxDigits : Nat := 4300

/-- The levels that arrays and objects from outside may be nested. -/
def nestingLimit : Nat := 990

/-- What is said about a text that is not read; only integers are worth words. -/
def ReadError.message? : ReadError → Option String
  | integerTooLong digits =>
      some ("Exceeds the limit (" ++ Nat.repr maxDigits
        ++ " digits) for integer string conversion: value has " ++ Nat.repr digits
        ++ " digits; use sys.set_int_max_str_digits() to increase the limit")
  | _ => none

/-- Blanks between the parts of a value. -/
def isBlank (c : Char) : Bool := c == ' ' || c == '\t' || c == '\n' || c == '\r'

/-- Drops blanks. -/
def skip (cs : List Char) : List Char := cs.dropWhile isBlank

/-- The value of a hexadecimal digit. -/
def hexValue? (c : Char) : Option Nat :=
  if c.isDigit then some (c.toNat - '0'.toNat)
  else if 'a' ≤ c ∧ c ≤ 'f' then some (c.toNat - 'a'.toNat + 10)
  else if 'A' ≤ c ∧ c ≤ 'F' then some (c.toNat - 'A'.toNat + 10)
  else none

/-- The value of four hexadecimal digits. -/
def hexQuad? (a b c d : Char) : Option Nat := do
  let a ← hexValue? a
  let b ← hexValue? b
  let c ← hexValue? c
  let d ← hexValue? d
  pure (((a * 16 + b) * 16 + c) * 16 + d)

/-- First halves of surrogate pairs. -/
def isHighSurrogate (n : Nat) : Bool := 0xD800 ≤ n && n < 0xDC00

/-- Second halves of surrogate pairs. -/
def isLowSurrogate (n : Nat) : Bool := 0xDC00 ≤ n && n < 0xE000

/-- The characters of code units: a surrogate pair is one character, and half a pair, which is
none, is replaced. -/
def ofUnits : List Nat → List Char
  | [] => []
  | [n] => [if isHighSurrogate n || isLowSurrogate n then Char.ofNat 0xFFFD else Char.ofNat n]
  | n :: m :: rest =>
      if isHighSurrogate n && isLowSurrogate m then
        Char.ofNat (0x10000 + (n - 0xD800) * 0x400 + (m - 0xDC00)) :: ofUnits rest
      else
        (if isHighSurrogate n || isLowSurrogate n then Char.ofNat 0xFFFD else Char.ofNat n)
          :: ofUnits (m :: rest)

/-- The character of a one-letter escape. -/
def escapeOf? (c : Char) : Option Char :=
  match c with
  | '"' => some '"'
  | '\\' => some '\\'
  | '/' => some '/'
  | 'b' => some (Char.ofNat 8)
  | 'f' => some (Char.ofNat 12)
  | 'n' => some '\n'
  | 'r' => some '\r'
  | 't' => some '\t'
  | _ => none

/-- The code units of a text after its opening quote, and what follows the closing one. -/
def units? : List Char → Option (List Nat × List Char)
  | [] => none
  | '"' :: rest => some ([], rest)
  | '\\' :: 'u' :: a :: b :: c :: d :: rest =>
      match hexQuad? a b c d with
      | some n => (units? rest).map fun (us, r) => (n :: us, r)
      | none => none
  | '\\' :: c :: rest =>
      match escapeOf? c with
      | some e => (units? rest).map fun (us, r) => (e.toNat :: us, r)
      | none => none
  | c :: rest =>
      if c.toNat < 32 then none else (units? rest).map fun (us, r) => (c.toNat :: us, r)

/-- A text after its opening quote, and what follows the closing one. -/
def textBody? (cs : List Char) : Option (String × List Char) :=
  (units? cs).map fun (us, rest) => (String.ofList (ofUnits us), rest)

/-- Splits leading digits off. -/
def digits (cs : List Char) : List Char × List Char :=
  (cs.takeWhile Char.isDigit, cs.dropWhile Char.isDigit)

/-- The fraction of a number, with its point, if there is one. -/
def fraction (cs : List Char) : List Char × List Char :=
  match cs with
  | '.' :: r =>
      match digits r with
      | ([], _) => ([], cs)
      | (ds, rest) => ('.' :: ds, rest)
  | _ => ([], cs)

/-- The power of ten of a number, with its mark, if there is one. -/
def power (cs : List Char) : List Char × List Char :=
  match cs with
  | [] => ([], cs)
  | e :: r =>
      if e = 'e' ∨ e = 'E' then
        let (sign, r) :=
          match r with
          | '+' :: r' => (['+'], r')
          | '-' :: r' => (['-'], r')
          | r' => ([], r')
        match digits r with
        | ([], _) => ([], cs)
        | (ds, rest) => (e :: sign ++ ds, rest)
      else ([], cs)

/-- The digits before the point: a zero, or digits that do not start with one. -/
def whole (cs : List Char) : List Char × List Char :=
  match cs with
  | '0' :: r => (['0'], r)
  | _ => digits cs

/-- A number without its sign. -/
def number (negative : Bool) (cs : List Char) : Except ReadError (Json × List Char) :=
  match whole cs with
  | ([], _) => .error .malformed
  | (ds, afterWhole) =>
      let (fractionPart, afterFraction) := fraction afterWhole
      let (powerPart, rest) := power afterFraction
      if fractionPart.isEmpty && powerPart.isEmpty then
        let n : Int := Numeral.digitsValue ds
        if maxDigits < ds.length then .error (.integerTooLong ds.length)
        else .ok (int (if negative then -n else n), rest)
      else
        match Numeral.unsigned? (ds ++ fractionPart ++ powerPart) with
        | some x => .ok (float (if negative then -x else x), rest)
        | none => .error .malformed

mutual

/-- A value at the start of the characters, and what follows it. -/
def value : Nat → Nat → List Char → Except ReadError (Json × List Char)
  | 0, _, _ => .error .malformed
  | fuel + 1, levels, cs =>
      match cs with
      | '"' :: r =>
          match textBody? r with
          | some (s, rest) => .ok (str s, rest)
          | none => .error .malformed
      | '[' :: r =>
          match levels with
          | 0 => .error .tooDeep
          | levels + 1 =>
              match skip r with
              | ']' :: rest => .ok (arr [], rest)
              | r' => (items fuel levels r').map fun (vs, rest) => (arr vs, rest)
      | '\x7b' :: r =>
          match levels with
          | 0 => .error .tooDeep
          | levels + 1 =>
              match skip r with
              | '\x7d' :: rest => .ok (obj [], rest)
              | r' => (fields fuel levels [] r').map fun (fs, rest) => (obj fs, rest)
      | 'n' :: 'u' :: 'l' :: 'l' :: rest => .ok (null, rest)
      | 't' :: 'r' :: 'u' :: 'e' :: rest => .ok (bool true, rest)
      | 'f' :: 'a' :: 'l' :: 's' :: 'e' :: rest => .ok (bool false, rest)
      | 'N' :: 'a' :: 'N' :: rest => .ok (float (0.0 / 0.0), rest)
      | 'I' :: 'n' :: 'f' :: 'i' :: 'n' :: 'i' :: 't' :: 'y' :: rest =>
          .ok (float (1.0 / 0.0), rest)
      | '-' :: 'I' :: 'n' :: 'f' :: 'i' :: 'n' :: 'i' :: 't' :: 'y' :: rest =>
          .ok (float (-1.0 / 0.0), rest)
      | '-' :: r => number true r
      | _ => number false cs

/-- Items up to the end of an array. -/
def items : Nat → Nat → List Char → Except ReadError (List Json × List Char)
  | 0, _, _ => .error .malformed
  | fuel + 1, levels, cs =>
      match value fuel levels cs with
      | .error e => .error e
      | .ok (v, after) =>
          match skip after with
          | ']' :: rest => .ok ([v], rest)
          | ',' :: r => (items fuel levels (skip r)).map fun (vs, rest) => (v :: vs, rest)
          | _ => .error .malformed

/-- Fields up to the end of an object, added to those read before. -/
def fields : Nat → Nat → List (String × Json) → List Char →
    Except ReadError (List (String × Json) × List Char)
  | 0, _, _, _ => .error .malformed
  | fuel + 1, levels, before, '"' :: cs =>
      match textBody? cs with
      | none => .error .malformed
      | some (name, afterName) =>
          match skip afterName with
          | ':' :: r =>
              match value fuel levels (skip r) with
              | .error e => .error e
              | .ok (v, after) =>
                  let known := setField name v before
                  match skip after with
                  | '\x7d' :: rest => .ok (known, rest)
                  | ',' :: r' => fields fuel levels known (skip r')
                  | _ => .error .malformed
          | _ => .error .malformed
  | _ + 1, _, _, _ => .error .malformed

end

/-- The JSON value that a text is, nested no deeper than the given levels. -/
def read (levels : Nat) (text : String) : Except ReadError Json :=
  let cs := text.toList
  match value (cs.length + 1) levels (skip cs) with
  | .error e => .error e
  | .ok (v, rest) => if (skip rest).isEmpty then .ok v else .error .malformed

end Scriptlet.Json
