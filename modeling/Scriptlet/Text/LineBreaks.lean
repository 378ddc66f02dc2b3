/-!
# Line breaks of other systems

A text that comes from a file or a terminal may end its lines with a carriage return, alone or
before a line feed. Inside the program every line ends with a line feed.
-/

namespace Scriptlet.Text

/-- Every kind of line break as a line feed. -/
def plainBreaks : List Char → List Char
  | [] => []
  | '\r' :: '\n' :: rest => '\n' :: plainBreaks rest
  | c :: rest => (if c = '\r' then '\n' else c) :: plainBreaks rest

/-- A text with line feeds only. -/
def withPlainBreaks (s : String) : String := String.ofList (plainBreaks s.toList)

/-- The lines of characters with line feeds only; a last line need not be ended. -/
def splitLines : List Char → List (List Char)
  | [] => []
  | '\n' :: rest => [] :: splitLines rest
  | c :: rest =>
      match splitLines rest with
      | [] => [[c]]
      | line :: lines => (c :: line) :: lines

/-- The lines of a text. -/
def lines (s : String) : List String :=
  (splitLines (plainBreaks s.toList)).map String.ofList

end Scriptlet.Text
