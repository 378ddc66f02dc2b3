import Scriptlet.Json

/-!
# Writing JSON

Values are written over several lines, two blanks further in at each level, with every character
that JSON allows written as it is. An empty array or object is written on one line.
-/

namespace Scriptlet.Json

/-- A character of a text as it stands between quotes. -/
def escapeChar (c : Char) : List Char :=
  if c = '"' then ['\\', '"']
  else if c = '\\' then ['\\', '\\']
  else if c = '\n' then ['\\', 'n']
  else if c = '\r' then ['\\', 'r']
  else if c = '\t' then ['\\', 't']
  else if c.toNat = 8 then ['\\', 'b']
  else if c.toNat = 12 then ['\\', 'f']
  else if c.toNat < 32 then '\\' :: 'u' :: Text.hexDigits 4 c.toNat
  else [c]

/-- A text between quotes. -/
def quote (s : String) : String :=
  String.ofList ('"' :: s.toList.flatMap escapeChar ++ ['"'])

/-- The text of a number with a point or a power of ten. -/
def floatText (x : Float) : String :=
  match Binary64.ofFloat x with
  | .nan => "NaN"
  | .infinite negative => if negative then "-Infinity" else "Infinity"
  | .finite _ _ _ => Number.exactText x

/-- A line break and the blanks of a level. -/
def lineBreak (level : Nat) : String := "\n".pushn ' ' (2 * level)

mutual

/-- A value at a level; the first line is not indented. -/
def pretty (level : Nat) : Json → String
  | null => "null"
  | bool b => if b then "true" else "false"
  | int n => Number.integerText n
  | float x => floatText x
  | str s => quote s
  | arr [] => "[]"
  | arr (v :: rest) =>
      "[" ++ lineBreak (level + 1) ++ pretty (level + 1) v ++ prettyItems level rest
  | obj [] => "\x7b\x7d"
  | obj ((name, v) :: rest) =>
      "\x7b" ++ lineBreak (level + 1) ++ quote name ++ ": " ++ pretty (level + 1) v
        ++ prettyFields level rest

/-- The items after the first, and the end of the array. -/
def prettyItems (level : Nat) : List Json → String
  | [] => lineBreak level ++ "]"
  | v :: rest => "," ++ lineBreak (level + 1) ++ pretty (level + 1) v ++ prettyItems level rest

/-- The fields after the first, and the end of the object. -/
def prettyFields (level : Nat) : List (String × Json) → String
  | [] => lineBreak level ++ "\x7d"
  | (name, v) :: rest =>
      "," ++ lineBreak (level + 1) ++ quote name ++ ": " ++ pretty (level + 1) v
        ++ prettyFields level rest

end

end Scriptlet.Json
