import Scriptlet.FrontEnd
import Scriptlet.Run

/-!
# Sessions

A session runs one source text after another in the same scopes. It remembers the diagnostics of
the latest run and keeps a log of the detail it was opened with, until the log is closed. A run that
is cut short by a malformed tree changes scopes and log, but leaves the diagnostics of the run before.
-/

namespace Scriptlet

/-- A session. -/
structure Session where
  frontEnd : FrontEnd
  detail : Nat
  scopes : Scopes Value := .empty
  diagnostics : List Diagnostic := []
  log : List String := []
  logging : Bool := true

/-- What a session answers to one request. -/
structure Answer where
  session : Session
  printed : List String
  complaints : String
  outcome : Except Malformed Value

namespace Session

/-- From this detail on a log shows the tokens of a source text. -/
def tokenDetail : Nat := 3

/-- From this detail on a log shows the size of a source text and the diagnostics of a run. -/
def runDetail : Nat := 1

/-- Adds lines to the log, unless it is closed. -/
def note (s : Session) (lines : List String) : Session :=
  if s.logging then { s with log := s.log ++ lines } else s

/-- Adds lines to a log of at least the given detail. -/
def noteAt (s : Session) (detail : Nat) (lines : List String) : Session :=
  if detail ≤ s.detail then s.note lines else s

/-- Closes the log. -/
def close (s : Session) : Session := { s with logging := false }

/-- The log as text. -/
def logText (s : Session) : String := String.join (s.log.map (· ++ "\n"))

/-- Reads a source text. -/
def parse (s : Session) (source : String) : Session × Parsed :=
  let s := if tokenDetail ≤ s.detail then s.note (s.frontEnd.tokenNotes source) else s
  (s, s.frontEnd.parse source)

/-- Runs statements that were read before, with the diagnostics of their reading. -/
def execute (s : Session) (nodes : List Node) (before : List Diagnostic) : Answer :=
  let effect := Run.program s.detail nodes s.scopes
  let s := { s with scopes := effect.scopes }.note effect.notes
  match effect.outcome with
  | .error reason => ⟨s, effect.printed, "", .error reason⟩
  | .ok v =>
      let all := before ++ effect.diagnostics
      let count := "finished with " ++ Nat.repr all.length ++ " diagnostics"
      let s := { s with diagnostics := all }.noteAt runDetail [count]
      ⟨s, effect.printed, Diagnostic.report all, .ok v⟩

/-- Runs a tree that came from outside; it must be a program. -/
def executeTree (s : Session) (tree : Node) (before : List Diagnostic) : Answer :=
  match tree with
  | .program nodes => s.execute nodes before
  | n => ⟨s, [], "", .error (.program n)⟩

/-- What a log says about the size of a source text. -/
def sizeNote (source : String) (parsed : Parsed) : String :=
  "parsed " ++ Nat.repr source.length ++ " chars into " ++ Nat.repr parsed.statements.length
    ++ " statements"

/-- Runs a source text. -/
def run (s : Session) (source : String) : Answer :=
  let (s, parsed) := s.parse source
  let s := s.noteAt runDetail [sizeNote source parsed]
  s.execute parsed.statements parsed.diagnostics

/-- Runs a source text in scopes of its own, read by the recovering front end. Only the log of the
session shows it. -/
def interpret (s : Session) (source : String) (own : Scopes Value) : Session × Effect :=
  let parsed := FrontEnd.descent.parse source
  let effect := Run.program s.detail parsed.statements own
  (s.note effect.notes,
    { effect with diagnostics := parsed.diagnostics ++ effect.diagnostics })

/-- Some diagnostic of the latest run came up while reading. -/
def hadCompileError (s : Session) : Bool := Diagnostic.anyAt .compile s.diagnostics

/-- Some diagnostic of the latest run came up while running. -/
def hadRuntimeError (s : Session) : Bool := Diagnostic.anyAt .runtime s.diagnostics

end Session

end Scriptlet
