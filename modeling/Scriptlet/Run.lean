import Scriptlet.Evaluation

/-!
# Running statements

Statements run in order on the same scopes. A statement that fails is reported, its value is the
diagnostic, and the next statement runs as usual; only a tree that no front end builds ends the run.
An expression statement binds its value to `_` in the global frame.

A run's effect is put together from the effects of its statements. The notes of an effect are the
lines that a log of the given detail keeps; the detail changes nothing else, except that a statement
too deep to be written down in the log does not run. There is always room for the line about an
assignment (see `Scriptlet.Evaluation`).
-/

namespace Scriptlet

/-- What statements do. -/
structure Effect where
  scopes : Scopes Value
  printed : List String := []
  notes : List String := []
  diagnostics : List Diagnostic := []
  outcome : Except Malformed Value

namespace Effect

/-- The effect of going on with what follows a value. -/
def andThen (e : Effect) (next : Scopes Value → Value → Effect) : Effect :=
  match e.outcome with
  | .error _ => e
  | .ok v =>
      let after := next e.scopes v
      { after with
        printed := e.printed ++ after.printed
        notes := e.notes ++ after.notes
        diagnostics := e.diagnostics ++ after.diagnostics }

end Effect

namespace Run

/-- The name of the value of the latest expression statement. -/
def lastValue : String := "_"

/-- The wording for trees that are too deep. -/
def tooDeepMessage : String := "Expression nested too deeply."

/-- From this detail on a log shows each statement before it runs. -/
def statementDetail : Nat := 2

/-- From this detail on a log shows each statement's value. -/
def resultDetail : Nat := 3

/-- From this detail on a log shows each assignment. -/
def assignmentDetail : Nat := 4

/-- A statement's value and what it prints. -/
def execute : Node → Evaluation (Value × List String)
  | .expression e => do
      let v ← Evaluation.evaluate Node.depthLimit e
      modify fun m => { m with scopes := m.scopes.defineGlobal lastValue v }
      pure (v, [])
  | .print e => do
      let v ← Evaluation.evaluate Node.depthLimit e
      pure (.null, [v.toText])
  | n => throw (.malformed (.statement n))

/-- The diagnostic of a fault in a statement, or what is wrong with the tree itself. -/
def diagnose (node : Node) : Fault → Except Malformed Diagnostic
  | .failed t cause => .ok (.atToken t (cause.message t.lexeme) .runtime)
  | .tooDeep =>
      match node.line with
      | .ok line => .ok (.atLine line tooDeepMessage .runtime)
      | .error n => .error (.node n)
  | .malformed reason => .error reason

/-- The lines of a log about assignments, in the order in which they were made. -/
def assignmentNotes (detail : Nat) (m : Memory) : List String :=
  if assignmentDetail ≤ detail then
    m.assigned.reverse.map fun (name, v) => "assign " ++ name ++ " = " ++ v.describe
  else []

/-- The line of a log about a statement's value. -/
def resultNote (detail : Nat) (v : Value) : List String :=
  if resultDetail ≤ detail then ["result " ++ v.describe] else []

/-- The effect of a fault in a statement. -/
def faulted (detail : Nat) (node : Node) (scopes : Scopes Value) (notes : List String)
    (fault : Fault) : Effect :=
  match diagnose node fault with
  | .ok d =>
      { scopes, diagnostics := [d], outcome := .ok (.failure d)
        notes := notes ++ resultNote detail (.failure d) }
  | .error reason => { scopes, notes, outcome := .error reason }

/-- The effect of executing a statement after the given notes. -/
def executed (detail : Nat) (node : Node) (scopes : Scopes Value) (notes : List String) : Effect :=
  match (execute node).run { scopes } with
  | .ok (v, printed) m =>
      { scopes := m.scopes, printed, outcome := .ok v
        notes := notes ++ assignmentNotes detail m ++ resultNote detail v }
  | .error fault m => faulted detail node m.scopes (notes ++ assignmentNotes detail m) fault

/-- The effect of one statement. -/
def statement (detail : Nat) (node : Node) (scopes : Scopes Value) : Effect :=
  if statementDetail ≤ detail then
    match node.format Node.depthLimit with
    | .ok text => executed detail node scopes ["execute " ++ text]
    | .error .tooDeep => faulted detail node scopes [] .tooDeep
    | .error (.outOfPlace n) => { scopes, outcome := .error (.node n) }
  else executed detail node scopes []

/-- The effect of statements in order; their value is that of the last, or the given one if there
is none. -/
def statements (detail : Nat) : List Node → Scopes Value → Value → Effect
  | [], scopes, v => { scopes, outcome := .ok v }
  | node :: rest, scopes, _ => (statement detail node scopes).andThen (statements detail rest)

/-- The effect of a whole program. -/
def program (detail : Nat) (nodes : List Node) (scopes : Scopes Value) : Effect :=
  statements detail nodes scopes .null

end Run

end Scriptlet
