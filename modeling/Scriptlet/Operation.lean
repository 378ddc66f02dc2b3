import Scriptlet.Cause
import Scriptlet.Text.Slices
import Scriptlet.Value

/-!
# Binary operations

What the operators between two values do. Two numbers have arithmetic and comparison, two texts
joining, taking an end off, and comparison by code point. A text and a number have joining and
taking an end off with the number's printed text, repetition, and cutting down to a fraction; a
number before a text has joining only. Every other pair is refused.
-/

namespace Scriptlet.Operation

/-- The longest text that repetition may build. -/
def maxLength : Nat := 100000000

/-- The result of a comparison operator, from strict and weak order and equality. -/
def comparison? {α : Type} (lt le eq : α → α → Bool) (k : Kind) (a b : α) : Option Bool :=
  match k with
  | .less => some (lt a b)
  | .lessEqual => some (le a b)
  | .greater => some (lt b a)
  | .greaterEqual => some (le b a)
  | .equalEqual => some (eq a b)
  | .bangEqual => some (!eq a b)
  | _ => none

/-- Two numbers. Division is that of the number format: by zero it gives an infinity or
not-a-number. -/
def numbers? (k : Kind) (x y : Float) : Option Value :=
  match k with
  | .plus => some (.number (x + y))
  | .minus => some (.number (x - y))
  | .star => some (.number (x * y))
  | .slash => some (.number (x / y))
  | _ =>
      (comparison? (fun a b => decide (a < b)) (fun a b => decide (a ≤ b)) (· == ·) k x y).map
        Value.ofBool

/-- Two texts. -/
def texts? (k : Kind) (s t : String) : Option Value :=
  match k with
  | .plus => some (.text (s ++ t))
  | .minus => some (.text (Text.withoutEnd s t))
  | _ =>
      (comparison? (fun a b => decide (a < b)) (fun a b => !decide (b < a)) (· == ·) k s t).map
        Value.ofBool

/-- A text repeated as often as the integer part of a finite number says; not at all below one. -/
def repetition (s : String) (x : Float) (count : Int) : Except Cause Value :=
  if count ≤ 0 ∨ s.isEmpty then .ok (.text "")
  else if (maxLength : Int) < s.length * count then .error (.tooLong (Number.plainText x))
  else .ok (.text (Text.repeated s count.toNat))

/-- The start of a text that is one `divisor`-th of it, rounded down; nothing of it for a negative
divisor. -/
def fraction (s : String) (divisor : Int) : Except Cause Value :=
  if divisor = 0 then .error .divisionByZero
  else .ok (.text (Text.first s (Int.fdiv s.length divisor).toNat))

/-- Repetition and cutting need a finite number. -/
def withFinite (x : Float) (part : Option Int) (f : Int → Except Cause Value) :
    Except Cause Value :=
  match part with
  | some n => f n
  | none => .error (.notFinite (Number.plainText x))

/-- A text and a number; none if the operator has no meaning for them. -/
def textNumber? (k : Kind) (s : String) (x : Float) : Option (Except Cause Value) :=
  match k with
  | .plus => some (.ok (.text (s ++ Number.plainText x)))
  | .minus => some (.ok (.text (Text.withoutEnd s (Number.plainText x))))
  | .star => some (withFinite x (Binary64.ofFloat x).floor? (repetition s x))
  | .slash => some (withFinite x (Binary64.ofFloat x).ceil? (fraction s))
  | _ => none

/-- The operation of an operator, if it has a meaning for the two values. -/
def meaning? (k : Kind) (a b : Value) : Option (Except Cause Value) :=
  match a, b with
  | .number x, .number y => (numbers? k x y).map .ok
  | .text s, .text t => (texts? k s t).map .ok
  | .text s, .number x => textNumber? k s x
  | .number x, .text s => if k = .plus then some (.ok (.text (Number.plainText x ++ s))) else none
  | _, _ => none

/-- Applies an operator to two values. -/
def apply (k : Kind) (a b : Value) : Except Cause Value :=
  (meaning? k a b).getD (.error (.unsupported a.typeName b.typeName))

end Scriptlet.Operation
