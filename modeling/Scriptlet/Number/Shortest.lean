import Scriptlet.Number.Binary64

/-!
# Shortest decimals

The decimal form of a finite number is the one with the fewest digits that still reads back as the
number, and among those the nearest to it. A decimal reads back when it lies between the midpoints
to the neighbouring numbers; the midpoints themselves count when the significand is even. The search
looks at the two grid points around the number for one digit, two digits, and so on; seventeen
digits are always enough. All comparisons are between natural numbers.
-/

namespace Scriptlet

/-- The decimal `digits · 10 ^ exponent`. -/
structure Decimal where
  digits : Nat
  exponent : Int
deriving DecidableEq, Repr

namespace Decimal

/-- Drops trailing zeros of the digits. -/
def trim : Nat → Decimal → Decimal
  | 0, d => d
  | fuel + 1, d =>
      if d.digits ≠ 0 ∧ d.digits % 10 = 0 then trim fuel ⟨d.digits / 10, d.exponent + 1⟩ else d

/-- The numerator and denominator of `10 ^ tens · 2 ^ twos`. -/
def ratio (tens twos : Int) : Nat × Nat :=
  (Nat.pow 10 tens.toNat * Nat.pow 2 twos.toNat,
    Nat.pow 10 (-tens).toNat * Nat.pow 2 (-twos).toNat)

/-- The decimal exponent of the leading digit of `significand · 2 ^ exponent`: the estimate from the
binary exponent is off by at most one either way. -/
def leadingExponent (significand : Nat) (exponent : Int) : Int :=
  let low := Int.fdiv (((significand.log2 : Int) + exponent) * 30103) 100000
  let reaches := fun (e : Int) =>
    let (num, den) := ratio e (-exponent)
    num ≤ significand * den
  if reaches (low + 1) then low + 1 else if reaches low then low else low - 1

/-- The grid point next to `significand · 2 ^ exponent` among the multiples of `10 ^ place` that
reads back, if there is one; of two the nearer, and of two equally near the even one. -/
def onGrid? (significand : Nat) (exponent : Int) (place : Int) : Option Decimal :=
  let (num, den) := ratio place (2 - exponent)
  let narrow := significand = Binary64.leadingBit ∧ exponent ≠ -1074
  let low := (4 * significand - if narrow then 1 else 2) * den
  let high := (4 * significand + 2) * den
  let value := 4 * significand * den
  let inside := fun (c : Nat) =>
    if significand % 2 = 0 then low ≤ c * num ∧ c * num ≤ high
    else low < c * num ∧ c * num < high
  let below := value / num
  let above := below + 1
  let fromBelow := value - below * num
  let fromAbove := above * num - value
  if inside below ∧ inside above then
    if fromBelow < fromAbove ∨ (fromBelow = fromAbove ∧ below % 2 = 0) then some ⟨below, place⟩
    else some ⟨above, place⟩
  else if inside below then some ⟨below, place⟩
  else if inside above then some ⟨above, place⟩
  else none

/-- The shortest decimal of a positive finite number. -/
def shortest (significand : Nat) (exponent : Int) : Decimal :=
  let leading := leadingExponent significand exponent
  let found := (List.range 17).findSome? fun (n : Nat) => onGrid? significand exponent (leading - n)
  trim 400 (found.getD ⟨0, 0⟩)

end Decimal

end Scriptlet
