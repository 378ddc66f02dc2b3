/-!
# Binary floating-point numbers, taken apart

A double-precision number is not a number, an infinity, or a sign with a significand times a power
of two. Everything exact that is said about a number (its integer part, whether it is whole, its
decimal digits) is computed on that form with integers, never on the rounded number itself.
-/

namespace Scriptlet

/-- A double-precision number by its parts; a finite one is `± significand · 2 ^ exponent`. -/
inductive Binary64 where
  | nan
  | infinite (negative : Bool)
  | finite (negative : Bool) (significand : Nat) (exponent : Int)
deriving DecidableEq, Repr

namespace Binary64

/-- The least significand of full length: the bit that a normal number does not store. -/
def leadingBit : Nat := Nat.pow 2 52

/-- Splits the sign, the eleven exponent bits and the fraction. -/
def ofFloat (x : Float) : Binary64 :=
  let bits := x.toBits.toNat
  let negative := bits / leadingBit / 2048 == 1
  let biased : Nat := bits / leadingBit % 2048
  let fraction := bits % leadingBit
  if biased = 2047 then
    if fraction = 0 then infinite negative else nan
  else if biased = 0 then finite negative fraction (-1074)
  else finite negative (leadingBit + fraction) ((biased : Int) - 1075)

/-- The largest integer at most `n · 2 ^ exponent`. -/
def floorScaled (n exponent : Int) : Int :=
  if 0 ≤ exponent then n * Nat.pow 2 exponent.toNat else Int.fdiv n (Nat.pow 2 (-exponent).toNat)

/-- The significand with its sign. -/
def signed (negative : Bool) (significand : Nat) : Int :=
  if negative then -(significand : Int) else significand

/-- The largest integer at most the number; none of a number that is not finite. -/
def floor? : Binary64 → Option Int
  | finite negative significand exponent => some (floorScaled (signed negative significand) exponent)
  | _ => none

/-- The least integer at least the number; none of a number that is not finite. -/
def ceil? : Binary64 → Option Int
  | finite negative significand exponent =>
      some (-floorScaled (-signed negative significand) exponent)
  | _ => none

/-- The integer that a finite whole number is. -/
def whole? (x : Binary64) : Option Int :=
  match x.floor?, x.ceil? with
  | some below, some above => if below = above then some below else none
  | _, _ => none

end Binary64

end Scriptlet
