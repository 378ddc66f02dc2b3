import Scriptlet.Number.Shortest

/-!
# How numbers are written

Two forms. `exactText` always shows that a number is a binary fraction: the shortest decimal, with
`.0` on whole numbers, positional while the leading digit stands between the ten-thousandths and the
sixteenth place before the point, and with an exponent of at least two digits otherwise.
`plainText`, the form that programs print, differs on finite whole numbers only: they are written as
their integer digits, and both zeros as `0`.
-/

namespace Scriptlet.Number

/-- The layout of numbers: exponents of the leading digit from `plainFrom` up to but not including
`plainBelow` are written positionally, others with an exponent of at least `exponentWidth` digits. -/
structure Layout where
  plainFrom : Int
  plainBelow : Int
  exponentWidth : Nat

/-- Positional from `0.0001` to below `10 ^ 16`, two digits of exponent beyond. -/
def layout : Layout := ⟨-4, 16, 2⟩

/-- Digits padded on the left with zeros. -/
def padLeft (width : Nat) (digits : String) : String :=
  "".pushn '0' (width - digits.length) ++ digits

/-- A decimal written positionally; `point` digits stand before the point. -/
def positional (digits : List Char) (point : Int) : String :=
  if point ≤ 0 then
    "0.".pushn '0' (-point).toNat ++ String.ofList digits
  else
    let before := point.toNat
    if digits.length ≤ before then
      (String.ofList digits).pushn '0' (before - digits.length) ++ ".0"
    else
      String.ofList (digits.take before) ++ "." ++ String.ofList (digits.drop before)

/-- A decimal written with one digit before the point and an exponent. -/
def scientific (width : Nat) (digits : List Char) (exponent : Int) : String :=
  let fraction := if digits.length ≤ 1 then "" else "." ++ String.ofList (digits.drop 1)
  let sign := if exponent < 0 then "-" else "+"
  String.ofList (digits.take 1) ++ fraction ++ "e" ++ sign
    ++ padLeft width (toString exponent.natAbs)

/-- Lays a positive decimal out. -/
def Layout.write (l : Layout) (d : Decimal) : String :=
  let digits := (Nat.repr d.digits).toList
  let point : Int := digits.length + d.exponent
  if l.plainFrom < point ∧ point ≤ l.plainBelow then positional digits point
  else scientific l.exponentWidth digits (point - 1)

/-- The text of a number that shows its kind. -/
def exactText (x : Float) : String :=
  match Binary64.ofFloat x with
  | .nan => "nan"
  | .infinite negative => if negative then "-inf" else "inf"
  | .finite negative significand exponent =>
      let size := if significand = 0 then "0.0" else layout.write (.shortest significand exponent)
      if negative then "-" ++ size else size

/-- The text of an integer. -/
def integerText (n : Int) : String :=
  if n < 0 then "-" ++ Nat.repr n.natAbs else Nat.repr n.natAbs

/-- The text of a number as programs print it. -/
def plainText (x : Float) : String :=
  match (Binary64.ofFloat x).whole? with
  | some n => integerText n
  | none => exactText x

end Scriptlet.Number
