import Scriptlet.Diagnostic
import Scriptlet.Node

/-!
# Parsed programs

What a front end makes of a source text: statements in order, and diagnostics in the order in which
they arose.
-/

namespace Scriptlet

/-- Statements, and what was wrong. -/
structure Parsed where
  statements : List Node
  diagnostics : List Diagnostic
deriving Repr

/-- A finished expression as a statement. -/
def Node.ofExpression (printing : Bool) (e : Node) : Node :=
  if printing then .print e else .expression e

end Scriptlet
