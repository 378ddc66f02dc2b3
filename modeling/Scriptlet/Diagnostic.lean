import Scriptlet.Token

/-!
# Diagnostics

A diagnostic says on which line and where on it something went wrong, what, and at which stage.
Diagnostics are collected in the order in which they arise. What is shown of them (`shown`) is the
first of every run of neighbours on one line: the rest of a run is usually fallout of its first.
-/

namespace Scriptlet

/-- Whether a program was being read or being run. -/
inductive Stage where
  | compile
  | runtime
deriving DecidableEq, Repr

namespace Stage

/-- The name of a stage. -/
def name : Stage → String
  | compile => "Compile"
  | runtime => "Runtime"

/-- The stage of a name. -/
def ofName? (s : String) : Option Stage :=
  if s = "Compile" then some compile else if s = "Runtime" then some runtime else none

/-- A stage with its constant's name. -/
def describe : Stage → String
  | compile => "<Stage.COMPILE: 'Compile'>"
  | runtime => "<Stage.RUNTIME: 'Runtime'>"

end Stage

/-- One diagnostic. -/
structure Diagnostic where
  line : Int
  location : String
  message : String
  stage : Stage
deriving DecidableEq, Repr

namespace Diagnostic

/-- Where a token stands, in words: a line break has no text to point at. -/
def locationOf (t : Token) : String :=
  match t.kind with
  | .endOfFile => " at end"
  | .newline => ""
  | _ => " at '" ++ t.lexeme ++ "'"

/-- A diagnostic about a token. -/
def atToken (t : Token) (message : String) (stage : Stage) : Diagnostic :=
  ⟨t.line, locationOf t, message, stage⟩

/-- A diagnostic about a line. -/
def atLine (line : Int) (message : String) (stage : Stage) : Diagnostic :=
  ⟨line, "", message, stage⟩

/-- A diagnostic as it is shown. -/
def text (d : Diagnostic) : String :=
  "[line " ++ Number.integerText d.line ++ "] " ++ d.stage.name ++ " Error" ++ d.location ++ ": "
    ++ d.message

/-- A diagnostic with all its fields. -/
def describe (d : Diagnostic) : String :=
  "Error(line=" ++ Number.integerText d.line ++ ", location=" ++ Text.quoted d.location
    ++ ", message=" ++ Text.quoted d.message ++ ", stage=" ++ d.stage.describe ++ ")"

/-- Drops every diagnostic on the line of the one kept before it. -/
def shownAfter (line : Option Int) : List Diagnostic → List Diagnostic
  | [] => []
  | d :: rest =>
      if line = some d.line then shownAfter line rest else d :: shownAfter (some d.line) rest

/-- The diagnostics that are shown. -/
def shown (ds : List Diagnostic) : List Diagnostic := shownAfter none ds

/-- The shown diagnostics, one on a line. -/
def report (ds : List Diagnostic) : String :=
  String.join ((shown ds).map fun d => d.text ++ "\n")

/-- Some diagnostic is of the given stage. -/
def anyAt (stage : Stage) (ds : List Diagnostic) : Bool := ds.any (·.stage == stage)

end Diagnostic

end Scriptlet
