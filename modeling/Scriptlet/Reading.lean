import Scriptlet.Node

/-!
# Reading expressions

An expression is read token by token, without looking ahead. A reading either wants an operand next
or holds one. Prefix operators wait for their operand; an operand waits, with the operator after it,
for what binds tighter on its right; an open parenthesis sets everything before it aside. Each
operator that arrives settles the waiting operands that bind at least as tightly as it does, which
gives left association; an assignment settles only what binds tighter than assignment, which gives
right association.

Both front ends read expressions this way. Which trees come of it is not settled here: the grammar
is stated apart from readings, and each front end is compared with the grammar.
-/

namespace Scriptlet

/-- An operand that waits, with the operator after it, for its right-hand side. -/
structure Waiting where
  left : Node
  operator : Token
deriving Repr

namespace Waiting

/-- The operator's rank. Only operators between operands wait, and all of them have one. -/
def rank (w : Waiting) : Nat := w.operator.kind.rank?.getD 0

/-- Joins the operands on the latest places that bind at least as tightly as `bound`. -/
def settle (bound : Nat) : List Waiting → Node → List Waiting × Node
  | [], operand => ([], operand)
  | w :: rest, operand =>
      if bound ≤ w.rank then settle bound rest (.binary w.left w.operator operand)
      else (w :: rest, operand)

/-- Joins all waiting operands. -/
def settleAll (waiting : List Waiting) (operand : Node) : Node :=
  waiting.foldl (fun e w => .binary w.left w.operator e) operand

theorem settle_zero (waiting : List Waiting) (operand : Node) :
    settle 0 waiting operand = ([], settleAll waiting operand) := by
  induction waiting generalizing operand with
  | nil => rfl
  | cons w rest ih => simp [settle, settleAll, ih]

end Waiting

/-- An expression up to a place where an operand must follow: operands that wait, latest first, and
the prefix operators just before the place, latest first. -/
structure Pending where
  waiting : List Waiting := []
  signs : List Token := []
deriving Repr

namespace Pending

/-- Applies the prefix operators to the operand they waited for. -/
def applySigns (p : Pending) (operand : Node) : Node :=
  p.signs.foldl (fun e sign => .unary sign e) operand

end Pending

/-- How far an expression has been read; `outer` are the expressions around open parentheses,
innermost first. -/
inductive Reading where
  | wanting (outer : List Pending) (inner : Pending)
  | holding (outer : List Pending) (waiting : List Waiting) (operand : Node)
deriving Repr

namespace Reading

/-- Nothing has been read. -/
def start : Reading := wanting [] {}

/-- What an arriving operator settles: assignment associates to the right, the others to the
left. -/
def settleBound (rank : Nat) : Nat := if rank = 0 then 1 else rank

/-- Reads one token; none if it cannot stand here. -/
def step : Reading → Token → Option Reading
  | wanting outer inner, t =>
      if t.kind.isLiteral then some (holding outer inner.waiting (inner.applySigns (.literal t)))
      else if t.kind.isSign then some (wanting outer { inner with signs := t :: inner.signs })
      else if t.kind = .leftParen then some (wanting (inner :: outer) {})
      else none
  | holding outer waiting operand, t =>
      match t.kind.rank? with
      | some rank =>
          let settled := Waiting.settle (settleBound rank) waiting operand
          some (wanting outer { waiting := ⟨settled.2, t⟩ :: settled.1 })
      | none =>
          match t.kind, outer with
          | .rightParen, around :: outer =>
              let group := .grouping (Waiting.settleAll waiting operand)
              some (holding outer around.waiting (around.applySigns group))
          | _, _ => none

/-- The expression, if it may end here. -/
def finished? : Reading → Option Node
  | holding [] waiting operand => some (Waiting.settleAll waiting operand)
  | _ => none

/-- The nesting an open parenthesis stands for. -/
def groupLoad : Nat := 14

/-- How many waiting operands are the targets of assignments. -/
def targets (waiting : List Waiting) : Nat := waiting.countP (·.operator.kind == .equal)

/-- The nesting of a reading: parentheses weigh most; prefix operators and assignments that are
still open weigh one each. -/
def load : Reading → Nat
  | wanting outer inner => around outer + targets inner.waiting + inner.signs.length
  | holding outer waiting _ => around outer + targets waiting
where
  around : List Pending → Nat
    | [] => 0
    | p :: outer => groupLoad + targets p.waiting + p.signs.length + around outer

end Reading

end Scriptlet
