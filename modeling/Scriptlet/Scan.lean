import Scriptlet.Piece
import Scriptlet.Diagnostic

/-!
# Scanning

Scanning turns the pieces of a source text into tokens, and into diagnostics about the pieces that
have no place. A token is on the line of its last character, so a text that spans lines is on the
line where it ends; a line break is on the line it ends.
-/

namespace Scriptlet

/-- The tokens of a source text before its end, the line of the end, and what was wrong. -/
structure Scan where
  body : List Token
  lastLine : Int
  diagnostics : List Diagnostic
deriving Repr

namespace Scan

/-- The line breaks among characters. -/
def lineBreaks (cs : List Char) : Int := cs.count '\n'

/-- Adds what a piece on the given line gives rise to. -/
def add (line : Int) (p : Piece) (s : Scan) : Scan :=
  match p.role with
  | .token kind =>
      { s with body := ⟨kind, String.ofList p.text, line + lineBreaks p.text.dropLast⟩ :: s.body }
  | .blank => s
  | .comment => s
  | .stray =>
      let d := .atLine line ("Unexpected character: " ++ String.ofList p.text) .compile
      { s with diagnostics := d :: s.diagnostics }
  | .unterminated =>
      { s with diagnostics := .atLine line "Unterminated string." .compile :: s.diagnostics }

/-- Scans pieces that start on the given line. -/
def ofPieces (line : Int) : List Piece → Scan
  | [] => ⟨[], line, []⟩
  | p :: rest => add line p (ofPieces (line + lineBreaks p.text) rest)

/-- Scans a source text. -/
def ofSource (source : String) : Scan := ofPieces 1 (Piece.ofChars source.toList)

/-- The token that ends the scan. -/
def final (s : Scan) : Token := .endOfFile s.lastLine

/-- All tokens, the end included. -/
def tokens (s : Scan) : List Token := s.body ++ [s.final]

end Scan

end Scriptlet
