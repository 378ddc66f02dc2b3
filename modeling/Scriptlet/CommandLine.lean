import Scriptlet.Batch
import Scriptlet.CommandLine.Arguments
import Scriptlet.Json.Printer
import Scriptlet.Json.Reader
import Scriptlet.Node.Json

/-!
# The command line

A command line runs a script, writes the tree of a script to a file, runs a tree from a file, or
answers the lines of a prompt one by one. It is a function of the arguments, the files and the text
typed in; what it gives is an exit status, what it wrote to the two streams, and the files
afterwards. A script that had any diagnostic exits with status 1; a tree that was run exits with
status 1 only if running it had one, and a prompt never does.

When the arguments ask for a log, the log file is there from the start, whatever comes after.
-/

namespace Scriptlet.CommandLine

/-- What a command line does. -/
structure Outcome where
  exit : Except Abort Nat
  stdout : String := ""
  stderr : String := ""
  files : Files

/-- How to call the program. -/
def usage : String :=
  "usage: miniscript [-h] [-v] [--parser \x7bdescent,grammar\x7d]\n"
    ++ "                  [--emit-ast SCRIPT | --ast AST_JSON_FILE]\n"
    ++ "                  [script]\n"

/-- The help text. -/
def help : String :=
  usage
    ++ "\n"
    ++ "Miniscript interpreter\n"
    ++ "\n"
    ++ "positional arguments:\n"
    ++ "  script                Miniscript file to execute; omit for a prompt\n"
    ++ "\n"
    ++ "options:\n"
    ++ "  -h, --help            show this help message and exit\n"
    ++ "  -v                    increase debug verbosity (can be repeated)\n"
    ++ "  --parser \x7bdescent,grammar\x7d\n"
    ++ "                        parser front end to use\n"
    ++ "  --emit-ast SCRIPT     emit AST JSON for the given script\n"
    ++ "  --ast AST_JSON_FILE   execute AST from a JSON file\n"

/-- What happens at the end of a mode: the session as it is then, and what to say and write. -/
structure Ending where
  session : Session
  exit : Except Abort Nat
  stdout : String := ""
  stderr : String := ""
  files : Files

/-- Nothing is at the path. -/
def notFound (session : Session) (files : Files) (path : String) : Ending :=
  { session, files, exit := .ok 1, stderr := "Error: file " ++ path ++ " not found\n" }

/-- Goes on with the text of the file at a path, if there is one. -/
def withText (session : Session) (files : Files) (path : String) (next : String → Ending) :
    Ending :=
  match Batch.readText files path with
  | .ok text => next text
  | .error (.file (.absent _)) => notFound session files path
  | .error (.file (.notDirectory _)) => notFound session files path
  | .error (.file .unnameable) => notFound session files path
  | .error abort => { session, files, exit := .error abort }

/-- An answer of the session, with the exit status that the session then calls for. -/
def ended (files : Files) (answer : Answer) (failed : Session → Bool) : Ending :=
  { session := answer.session, files
    stdout := Batch.printedLines answer.printed
    stderr := answer.complaints
    exit :=
      match answer.outcome with
      | .error reason => .error (.malformed reason)
      | .ok _ => .ok (if failed answer.session then 1 else 0) }

/-- Runs a script. -/
def runScript (session : Session) (files : Files) (path : String) : Ending :=
  withText session files path fun source =>
    ended files (session.run source) fun s => s.hadCompileError || s.hadRuntimeError

/-- Writes the tree of a script beside it. -/
def emitTree (session : Session) (files : Files) (path : String) : Ending :=
  withText session files path fun source =>
    let (session, parsed) := session.parse source
    if parsed.diagnostics.isEmpty then
      match (Node.program parsed.statements).toJson Node.depthLimit with
      | .error _ =>
          { session, files, exit := .ok 1
            stderr := "Error: " ++ path ++ " is nested too deeply to serialize\n" }
      | .ok json =>
          let target := path ++ ".ast.json"
          match files.write target (json.pretty 0) with
          | .ok files => { session, files, exit := .ok 0, stdout := target ++ "\n" }
          | .error e => { session, files, exit := .error (.file e) }
    else
      { session, files, exit := .ok 1, stderr := Diagnostic.report parsed.diagnostics }

/-- The tree that a JSON text holds. -/
def readTree (text : String) : Except Abort Node :=
  match Json.read Json.nestingLimit text with
  | .error e => .error (.notJson e)
  | .ok json =>
      match Node.ofJson Node.depthLimit json with
      | .ok tree => .ok tree
      | .error e => .error (.notTree e)

/-- Runs the tree in a file. -/
def runTree (session : Session) (files : Files) (path : String) : Ending :=
  withText session files path fun text =>
    match readTree text with
    | .error abort => { session, files, exit := .error abort }
    | .ok tree => ended files (session.executeTree tree []) Session.hadRuntimeError

/-- What a prompt shows before each line. -/
def promptMark : String := "> "

/-- What a prompt writes in answer to a line. -/
def echo (answer : Answer) : String :=
  Batch.printedLines answer.printed ++
    match answer.outcome with
    | .ok v => if v.isEchoed then v.toText ++ "\n" else ""
    | .error _ => ""

/-- Answers the lines of a prompt. -/
def prompt (files : Files) (session : Session) : List String → Ending
  | [] => { session, files, exit := .ok 0, stdout := promptMark ++ "\n" }
  | line :: rest =>
      let answer := session.run line
      match answer.outcome with
      | .error reason =>
          { session := answer.session, files, exit := .error (.malformed reason)
            stdout := promptMark ++ echo answer, stderr := answer.complaints }
      | .ok _ =>
          let after := prompt files answer.session rest
          { after with
            stdout := promptMark ++ echo answer ++ after.stdout
            stderr := answer.complaints ++ after.stderr }

/-- An option that was given a text. -/
def given (option : Option String) : Option String := option.filter (!·.isEmpty)

/-- Does what the options ask for. -/
def perform (options : Options) (session : Session) (files : Files) (typed : String) : Ending :=
  match given options.emit, given options.tree, given options.script with
  | some path, _, _ => emitTree session files (Files.plainPath path)
  | none, some path, _ => runTree session files (Files.plainPath path)
  | none, none, some path => runScript session files (Files.plainPath path)
  | none, none, none => prompt files session (Text.lines typed)

/-- Runs a command line. -/
def run (arguments : List String) (files : Files) (typed : String) : Outcome :=
  match Options.ofArguments arguments with
  | .error .help => { exit := .ok 0, stdout := help, files }
  | .error (.wrong e) =>
      { exit := .ok 2, stderr := usage ++ "miniscript: error: " ++ e.message ++ "\n", files }
  | .ok options =>
      match options.frontEnd with
      | none => { exit := .error (.frontEnd none), files }
      | some frontEnd =>
          match Session.start frontEnd options.verbosity files with
          | .error e => { exit := .error (.file e), files }
          | .ok (session, files) =>
              let ending := perform options session files typed
              { exit := ending.exit, stdout := ending.stdout, stderr := ending.stderr
                files := ending.session.saveLog ending.files }

end Scriptlet.CommandLine
