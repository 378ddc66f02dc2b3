import Scriptlet.Run

/-!
# Statements one by one

What a statement comes to is split in two: the attempt to execute it (`Run.attempt`), which ends in
a value or in a fault, and what is said about it (`Run.told`). Notes are for logs and nothing reads
them back, so effects are compared without them (`Effect.withoutNotes`); up to notes a statement is
its attempt, told (`Run.withoutNotes_statement`), and statements follow one another as effects do
(`Run.withoutNotes_statements_cons`, `Run.statements_append`).
-/

namespace Scriptlet

namespace Effect

/-- An effect as a program without a log has it. -/
def withoutNotes (e : Effect) : Effect := { e with notes := [] }

theorem withoutNotes_andThen (e : Effect) (next : Scopes Value → Value → Effect) :
    (e.andThen next).withoutNotes =
      e.withoutNotes.andThen fun scopes v => (next scopes v).withoutNotes := by
  rcases e with ⟨scopes, printed, notes, diagnostics, _ | v⟩ <;> rfl

theorem andThen_assoc (e : Effect) (next last : Scopes Value → Value → Effect) :
    (e.andThen next).andThen last = e.andThen fun scopes v => (next scopes v).andThen last := by
  rcases e with ⟨scopes, printed, notes, diagnostics, reason | v⟩
  · rfl
  · simp only [andThen]
    generalize next scopes v = after
    rcases after with ⟨scopes', printed', notes', diagnostics', reason | w⟩
    · rfl
    · simp only [List.append_assoc]

end Effect

namespace Run

/-- How a statement comes out: a value with what was printed, or a fault. -/
def performed (node : Node) (scopes : Scopes Value) :
    EStateM.Result Fault (Scopes Value) (Value × List String) :=
  match (execute node).run { scopes } with
  | .ok result m => .ok result m.scopes
  | .error fault m => .error fault m.scopes

/-- How a statement comes out that goes to the log first. If it cannot be written there, it is not
executed. -/
def attempt (detail : Nat) (node : Node) (scopes : Scopes Value) :
    EStateM.Result Fault (Scopes Value) (Value × List String) :=
  if statementDetail ≤ detail then
    match node.format Node.depthLimit with
    | .ok _ => performed node scopes
    | .error .tooDeep => .error .tooDeep scopes
    | .error (.outOfPlace n) => .error (.malformed (.node n)) scopes
  else performed node scopes

/-- What is said about an attempt. -/
def told (node : Node) :
    EStateM.Result Fault (Scopes Value) (Value × List String) → Effect
  | .ok (v, printed) scopes => { scopes, printed, outcome := .ok v }
  | .error fault scopes =>
      match diagnose node fault with
      | .ok d => { scopes, diagnostics := [d], outcome := .ok (.failure d) }
      | .error reason => { scopes, outcome := .error reason }

theorem withoutNotes_faulted (detail : Nat) (node : Node) (scopes : Scopes Value)
    (notes : List String) (fault : Fault) :
    (faulted detail node scopes notes fault).withoutNotes = told node (.error fault scopes) := by
  simp only [faulted, told]
  cases diagnose node fault <;> rfl

/-- Up to notes, a statement is its attempt, told. -/
theorem withoutNotes_statement (detail : Nat) (node : Node) (scopes : Scopes Value) :
    (statement detail node scopes).withoutNotes = told node (attempt detail node scopes) := by
  have hexecuted : ∀ notes, (executed detail node scopes notes).withoutNotes =
      told node (performed node scopes) := by
    intro notes
    simp only [executed, performed]
    cases (execute node).run { scopes } with
    | ok result m => rfl
    | error fault m => exact withoutNotes_faulted ..
  simp only [statement, attempt]
  split
  · cases node.format Node.depthLimit with
    | ok text => exact hexecuted _
    | error refusal =>
      cases refusal with
      | tooDeep => exact withoutNotes_faulted ..
      | outOfPlace n => rfl
  · exact hexecuted _

theorem withoutNotes_statements_cons (detail : Nat) (node : Node) (rest : List Node)
    (scopes : Scopes Value) (v : Value) :
    (statements detail (node :: rest) scopes v).withoutNotes =
      (told node (attempt detail node scopes)).andThen fun scopes v =>
        (statements detail rest scopes v).withoutNotes := by
  rw [statements, Effect.withoutNotes_andThen, withoutNotes_statement]

theorem statements_append (detail : Nat) (nodes others : List Node) (scopes : Scopes Value)
    (v : Value) :
    statements detail (nodes ++ others) scopes v =
      (statements detail nodes scopes v).andThen (statements detail others) := by
  induction nodes generalizing scopes v with
  | nil => simp [statements, Effect.andThen]
  | cons node nodes ih =>
    simp only [List.cons_append, statements, Effect.andThen_assoc]
    congr 1
    funext scopes v
    exact ih scopes v

end Run

end Scriptlet
