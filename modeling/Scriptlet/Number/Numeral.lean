import Scriptlet.Text.WordClass

/-!
# Reading numerals

A numeral is an optional sign before digits with an optional point and an optional power of ten, or
before one of the words for infinity and not-a-number in any case. Blanks around it do not count,
digits of every script do, and a single underscore may stand between two digits. The value is the
number nearest to the decimal.
-/

namespace Scriptlet.Numeral

/-- Characters that may surround a numeral. -/
def isBlank (c : Char) : Bool :=
  let n := c.toNat
  (9 ≤ n && n ≤ 13) || n == 32 || n == 0x85 || n == 0xA0 || n == 0x1680
    || (0x2000 ≤ n && n ≤ 0x200A) || n == 0x2028 || n == 0x2029 || n == 0x202F || n == 0x205F
    || n == 0x3000

/-- Digits of every script as plain digits. -/
def plainDigit (c : Char) : Char :=
  match Text.decimalValue? c with
  | some d => Char.ofNat ('0'.toNat + d)
  | none => c

/-- Drops blanks at both ends. -/
def strip (cs : List Char) : List Char :=
  ((cs.dropWhile isBlank).reverse.dropWhile isBlank).reverse

/-- Drops the underscores of a numeral, each of which must stand between two digits; `after` tells
whether a digit stands before. -/
def dropUnderscores (after : Bool) : List Char → Option (List Char)
  | [] => some []
  | '_' :: c :: rest =>
      if after && c.isDigit then (dropUnderscores true rest).map (c :: ·) else none
  | c :: rest => if c = '_' then none else (dropUnderscores c.isDigit rest).map (c :: ·)

/-- The value of a row of digits. -/
def digitsValue (cs : List Char) : Nat :=
  cs.foldl (fun n c => 10 * n + (c.toNat - '0'.toNat)) 0

/-- A signed row of digits: the power of ten of a numeral. -/
def power? (cs : List Char) : Option Int :=
  let (negative, digits) :=
    match cs with
    | '-' :: r => (true, r)
    | '+' :: r => (false, r)
    | r => (false, r)
  if digits.isEmpty || !digits.all Char.isDigit then none
  else some (if negative then -(digitsValue digits : Int) else digitsValue digits)

/-- The digits of an unsigned decimal numeral and its power of ten. -/
def decimal? (cs : List Char) : Option (Nat × Int) :=
  let whole := cs.takeWhile Char.isDigit
  let afterWhole := cs.dropWhile Char.isDigit
  let (fraction, rest) :=
    match afterWhole with
    | '.' :: r => (r.takeWhile Char.isDigit, r.dropWhile Char.isDigit)
    | r => ([], r)
  if whole.isEmpty && fraction.isEmpty then none
  else
    let shift : Int := -(fraction.length : Int)
    match rest with
    | [] => some (digitsValue (whole ++ fraction), shift)
    | e :: power =>
        if e = 'e' ∨ e = 'E' then
          (power? power).map fun p => (digitsValue (whole ++ fraction), shift + p)
        else none

/-- The number nearest to `digits · 10 ^ power`. Powers beyond the range of numbers are settled by
the place of the leading digit, so that no huge power of ten is ever formed. -/
def nearest (digits : Nat) (power : Int) : Float :=
  let places : Int := (Nat.toDigits 10 digits).length + power
  if digits = 0 ∨ places < -400 then 0.0
  else if 400 < places then 1.0 / 0.0
  else Float.ofScientific digits (power < 0) power.natAbs

/-- The value of an unsigned numeral. -/
def unsigned? (cs : List Char) : Option Float :=
  let word := String.ofList (cs.map Char.toLower)
  if word = "inf" ∨ word = "infinity" then some (1.0 / 0.0)
  else if word = "nan" then some (0.0 / 0.0)
  else (decimal? cs).map fun (digits, power) => nearest digits power

/-- The value of a numeral. -/
def value? (text : String) : Option Float :=
  match dropUnderscores false (strip (text.toList.map plainDigit)) with
  | some ('-' :: cs) => (unsigned? cs).map fun x => -x
  | some ('+' :: cs) => unsigned? cs
  | some cs => unsigned? cs
  | none => none

end Scriptlet.Numeral
