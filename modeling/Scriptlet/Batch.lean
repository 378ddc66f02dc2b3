import Scriptlet.Files
import Scriptlet.Json.Reader
import Scriptlet.Node.Json
import Scriptlet.Session
import Scriptlet.Text.LineBreaks

/-!
# Running a text or a file at once

A program text, or the text of a file, runs in a session of its own. When the session keeps a log,
its log file is there from the start, whatever comes after.
-/

namespace Scriptlet

/-- What ends a run without a result. -/
inductive Abort where
  | file (error : FileError)
  | notText
  | notJson (error : Json.ReadError)
  | notTree (error : TreeError)
  | malformed (reason : Malformed)
  | frontEnd (wanted : Option String)

namespace Session

/-- The file that the log goes to. -/
def logPath : String := "debug.txt"

/-- A new session. One that keeps a log has its log file at once, over an older one. -/
def start (frontEnd : FrontEnd) (detail : Nat) (files : Files) :
    Except FileError (Session × Files) :=
  let session : Session := { frontEnd, detail }
  if detail = 0 then .ok (session, files)
  else
    match files.write logPath "" with
    | .ok files => .ok (session, files)
    | .error e => .error e

/-- The files once the log is written. -/
def saveLog (session : Session) (files : Files) : Files :=
  if session.detail = 0 then files else (files.write logPath session.logText).toOption.getD files

end Session

namespace Batch

/-- The text of a file with plain line breaks. -/
def decode (bytes : ByteArray) : Except Abort String :=
  match String.fromUTF8? bytes with
  | some text => .ok (Text.withPlainBreaks text)
  | none => .error .notText

/-- The text of the file at a path. -/
def readText (files : Files) (path : String) : Except Abort String :=
  match files.open? path with
  | .ok bytes => decode bytes
  | .error e => .error (.file e)

/-- Printed texts as they appear on a stream. -/
def printedLines (texts : List String) : String := String.join (texts.map (· ++ "\n"))

/-- What a run at once leaves behind. -/
structure Result where
  session : Session
  outcome : Except Abort Value
  stdout : String := ""
  stderr : String := ""
  files : Files

/-- Runs the text that `source` gives, once the session is there. -/
def run (name : String) (detail : Nat) (files : Files)
    (source : Files → Except Abort String) : Result :=
  let idle : Session := { frontEnd := .descent, detail }
  match FrontEnd.ofName? name with
  | none => { session := idle, outcome := .error (.frontEnd (some name)), files }
  | some frontEnd =>
      match Session.start frontEnd detail files with
      | .error e => { session := idle, outcome := .error (.file e), files }
      | .ok (session, files) =>
          match source files with
          | .error abort => { session, outcome := .error abort, files }
          | .ok text =>
              let answer := session.run text
              { session := answer.session
                outcome := answer.outcome.mapError .malformed
                stdout := printedLines answer.printed
                stderr := answer.complaints
                files := answer.session.saveLog files }

/-- Runs a program text. -/
def runText (name : String) (detail : Nat) (files : Files) (text : String) : Result :=
  run name detail files fun _ => .ok text

/-- Runs the text of the file at a path. -/
def runFile (name : String) (detail : Nat) (files : Files) (path : String) : Result :=
  run name detail files fun files => readText files path

end Batch

end Scriptlet
