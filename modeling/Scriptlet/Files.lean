import Scriptlet.Text.Quoted

/-!
# Files

The files that a run can see, by their place: the names of the directories on the way, from the
working directory or from the root, and the file's own name. Beside the directories on the way to a
file there are those that every system has, and a null device, which reads as an empty file. A path
is followed name by name, and a name can only be looked up in a directory. Names and paths that are
too long are refused, and so are paths that hold the character zero, which no name can have.
-/

namespace Scriptlet

/-- Files by their place. -/
structure Files where
  entries : List (List String × ByteArray) := []

/-- Why a file cannot be opened. -/
inductive FileError where
  | absent (path : String)
  | notDirectory (path : String)
  | isDirectory (path : String)
  | tooLong (path : String)
  | unnameable
deriving DecidableEq, Repr

namespace FileError

/-- The wording of a file error. -/
def message : FileError → String
  | absent path => "[Errno 2] No such file or directory: " ++ Text.quoted path
  | notDirectory path => "[Errno 20] Not a directory: " ++ Text.quoted path
  | isDirectory path => "[Errno 21] Is a directory: " ++ Text.quoted path
  | tooLong path => "[Errno 36] File name too long: " ++ Text.quoted path
  | unnameable => "embedded null byte"

end FileError

namespace Files

/-- The names of a path, empty ones included. -/
def split (path : String) : List String := (path.toList.splitOn '/').map String.ofList

/-- A path in plain form: no empty names and no `.`; two slashes at the start are kept as they are,
more are one. -/
def plainPath (path : String) : String :=
  let slashes := (path.toList.takeWhile (· == '/')).length
  let root := if slashes = 0 then "" else if slashes = 2 then "//" else "/"
  let names := (split path).filter fun name => name ≠ "" && name ≠ "."
  if slashes = 0 && names.isEmpty then "." else root ++ "/".intercalate names

/-- The place of the null device. -/
def nullDevice : List String := ["/", "dev", "null"]

/-- A file at a place. -/
def content? (files : Files) (place : List String) : Option ByteArray :=
  match files.entries.find? (·.1 == place) with
  | some entry => some entry.2
  | none => if place = nullDevice then some .empty else none

/-- The directories that every system has at its root. -/
def standing : List String :=
  ["bin", "dev", "etc", "lib", "opt", "proc", "run", "sbin", "sys", "tmp", "usr", "var"]

/-- A directory that is there without any file: the working directory, one above it, the root, or
one that every system has. -/
def isStanding (place : List String) : Bool :=
  place.all (· == "..") || place == ["/"] || standing.any fun name => place == ["/", name]

/-- The place is a directory: it stands by itself, or some file is below it. -/
def isDirectory (files : Files) (place : List String) : Bool :=
  isStanding place
    || files.entries.any fun entry => place.isPrefixOf entry.1 && entry.1.length > place.length

/-- One name further. -/
def enter (place : List String) (name : String) : List String :=
  if name = "" ∨ name = "." then place
  else if name = ".." then
    match place.getLast? with
    | none => [".."]
    | some ".." => place ++ [".."]
    | some "/" => place
    | some _ => place.dropLast
  else place ++ [name]

/-- The place a path starts from. -/
def origin (path : String) : List String := if path.startsWith "/" then ["/"] else []

/-- The place of a path, whether or not there is something. -/
def place (path : String) : List String := (split path).foldl enter (origin path)

/-- The bytes that one name may have. -/
def maxNameBytes : Nat := 255

/-- The bytes that a path may have. -/
def maxPathBytes : Nat := 4095

/-- Follows names from a place. -/
def follow (files : Files) (path : String) (place : List String) :
    List String → Except FileError (List String)
  | [] => .ok place
  | name :: rest =>
      if files.isDirectory place then
        if maxNameBytes < name.utf8ByteSize then .error (.tooLong path)
        else files.follow path (enter place name) rest
      else if (files.content? place).isSome then .error (.notDirectory path)
      else .error (.absent path)

/-- The place that a path leads to, whether or not there is a file. -/
def resolve (files : Files) (path : String) : Except FileError (List String) :=
  if path.toList.contains (Char.ofNat 0) then .error .unnameable
  else if path = "" then .error (.absent path)
  else if maxPathBytes < path.utf8ByteSize then .error (.tooLong path)
  else files.follow path (origin path) (split path)

/-- The content of the file at a path. -/
def open? (files : Files) (path : String) : Except FileError ByteArray :=
  match files.resolve path with
  | .error e => .error e
  | .ok place =>
      match files.content? place with
      | some bytes => .ok bytes
      | none => if files.isDirectory place then .error (.isDirectory path) else .error (.absent path)

/-- A file put at a place, over an older one. -/
def put (files : Files) (place : List String) (bytes : ByteArray) : Files :=
  ⟨files.entries.filter (·.1 != place) ++ [(place, bytes)]⟩

/-- Writes a text to the file at a path. -/
def write (files : Files) (path text : String) : Except FileError Files :=
  match files.resolve path with
  | .error e => .error e
  | .ok place =>
      if files.isDirectory place then .error (.isDirectory path)
      else .ok (files.put place text.toUTF8)

end Files

end Scriptlet
