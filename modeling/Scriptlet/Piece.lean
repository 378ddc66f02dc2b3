import Scriptlet.Lexeme
import Scriptlet.Token

/-!
# Pieces of a source text

A source text is cut into pieces from left to right, each as long as its kind allows: the lexeme of
a token, a blank, a comment, a character that has no place, or a quoted text that never closes.
Nothing is lost (`flatMap_text_ofChars`); which pieces become tokens is decided afterwards.
-/

namespace Scriptlet

/-- What a piece of the source is. -/
inductive Role where
  | token (kind : Kind)
  | blank
  | comment
  | stray
  | unterminated
deriving DecidableEq, Repr

/-- A piece of the source. -/
structure Piece where
  role : Role
  text : List Char
deriving DecidableEq, Repr

namespace Piece

open Lexeme

/-- The kind of a word. -/
def wordKind (word : List Char) : Kind := (Kind.keyword? (String.ofList word)).getD .identifier

/-- An operator that may be followed by `=`. -/
def withEqual (rest : List Char) (both alone : Role) : Role × Nat :=
  if startsWith '=' rest then (both, 1) else (alone, 0)

/-- The role of the piece that starts with a character, and how many of the characters after it
belong to it. -/
def extent (c : Char) (rest : List Char) : Role × Nat :=
  match c with
  | '(' => (.token .leftParen, 0)
  | ')' => (.token .rightParen, 0)
  | '\x7b' => (.token .leftBrace, 0)
  | '\x7d' => (.token .rightBrace, 0)
  | ',' => (.token .comma, 0)
  | '-' => (.token .minus, 0)
  | '+' => (.token .plus, 0)
  | ';' => (.token .semicolon, 0)
  | '*' => (.token .star, 0)
  | '=' => withEqual rest (.token .equalEqual) (.token .equal)
  | '<' => withEqual rest (.token .lessEqual) (.token .less)
  | '>' => withEqual rest (.token .greaterEqual) (.token .greater)
  | '!' => withEqual rest (.token .bangEqual) .stray
  | '/' => if startsWith '/' rest then (.comment, commentLength rest) else (.token .slash, 0)
  | '"' =>
      match textLength? rest with
      | some n => (.token .string, n)
      | none => (.unterminated, rest.length)
  | '.' =>
      if startsWithDigit rest then (.token .number, run Char.isDigit rest) else (.token .dot, 0)
  | ' ' => (.blank, 0)
  | '\r' => (.blank, 0)
  | '\t' => (.blank, 0)
  | '\n' => (.token .newline, 0)
  | _ =>
      if c.isDigit then (.token .number, numberLength rest)
      else if Text.isLetter c || c == '_' then
        let n := wordLength rest
        (.token (wordKind (c :: rest.take n)), n)
      else (.stray, 0)

/-- The pieces of a source text. -/
def ofChars : List Char → List Piece
  | [] => []
  | c :: rest =>
      let cut := extent c rest
      ⟨cut.1, c :: rest.take cut.2⟩ :: ofChars (rest.drop cut.2)
termination_by cs => cs.length
decreasing_by simp only [List.length_drop, List.length_cons]; omega

/-- The pieces, put together, are the source text. -/
theorem flatMap_text_ofChars (cs : List Char) : (ofChars cs).flatMap (·.text) = cs := by
  fun_induction ofChars cs with
  | case1 => rfl
  | case2 c rest cut ih => simp [ih, List.take_append_drop]

end Piece

end Scriptlet
