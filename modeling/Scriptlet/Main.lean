import Scriptlet.CommandLine

/-!
# The program

The command line on real files and streams: the file that the arguments name is read, the library
decides what to do, and what it decided is written. A prompt is answered line by line, so that an
answer appears before the next line is typed.
-/

namespace Scriptlet.Program

open CommandLine

/-- What is said when a run ends without a status. -/
def abortMessage : Abort → String
  | .file e => e.message
  | .notText => "not a text in UTF-8"
  | .notJson e => e.message?.getD "not a JSON text"
  | .notTree e => e.message?.getD "nested too deeply"
  | .malformed reason => reason.message
  | .frontEnd wanted => FrontEnd.unknownMessage wanted

/-- The path of the file that options ask to read. -/
def inputPath? (options : Options) : Option String :=
  (given options.emit).or ((given options.tree).or (given options.script))

/-- The file at a path, if it can be read. -/
def fetch (path : String) : IO Files := do
  try
    let bytes ← IO.FS.readBinFile path
    pure (Files.put {} (Files.place path) bytes)
  catch _ => pure {}

/-- Writes the files that a run has changed. -/
def store (before after : Files) : IO Unit := do
  for (place, bytes) in after.entries do
    let known := (before.content? place).any fun old => old.data == bytes.data
    unless known do
      IO.FS.writeBinFile ("/".intercalate place) bytes

/-- Answers lines until there are none. -/
partial def converse (session : Session) (input output : IO.FS.Stream) : IO Session := do
  output.putStr promptMark
  output.flush
  let line ← input.getLine
  if line.isEmpty then
    output.putStrLn ""
    return session
  let answer := session.run ("".intercalate ((Text.lines line).take 1))
  output.putStr (echo answer)
  IO.eprint answer.complaints
  converse answer.session input output

/-- A prompt, with its log if some detail is asked for. -/
def runPrompt (frontEnd : FrontEnd) (detail : Nat) : IO UInt32 := do
  let session : Session := { frontEnd, detail }
  let final ← converse session (← IO.getStdin) (← IO.getStdout)
  if detail > 0 then IO.FS.writeFile Session.logPath final.logText
  return 0

/-- Everything but a prompt. -/
def runOnce (arguments : List String) (path? : Option String) : IO UInt32 := do
  let files ← match path? with
    | some path => fetch path
    | none => pure {}
  let outcome := CommandLine.run arguments files ""
  IO.print outcome.stdout
  IO.eprint outcome.stderr
  store files outcome.files
  match outcome.exit with
  | .ok status => return status.toUInt32
  | .error abort =>
      IO.eprintln (abortMessage abort)
      return 1

end Scriptlet.Program

/-- Runs the command line. -/
def main (arguments : List String) : IO UInt32 :=
  match Scriptlet.CommandLine.Options.ofArguments arguments with
  | .error _ => Scriptlet.Program.runOnce arguments none
  | .ok options =>
      match Scriptlet.Program.inputPath? options, options.frontEnd with
      | none, some frontEnd => Scriptlet.Program.runPrompt frontEnd options.verbosity
      | path?, _ => Scriptlet.Program.runOnce arguments path?
