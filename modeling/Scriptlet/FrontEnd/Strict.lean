import Scriptlet.FrontEnd.Parsed
import Scriptlet.Reading
import Scriptlet.Scan

/-!
# The strict front end

The source is cut and read in one pass: what may come next decides which lexemes are looked for.
Where an operand may come, a word is a name unless it is one of the words that can stand there;
where an operator may come no word is looked for at all, so that `1 andx` is `1 and x`. The first
mistake ends the reading and no statement is kept. A text with an odd number of quotes at its end
gives the last one back.

Words of the language that were read as names are turned down at the end, the first one only.
Tokens are on the line of their first character.
-/

namespace Scriptlet.FrontEnd.Strict

open Lexeme

/-- What may come next. -/
inductive Expected where
  | statement
  | operand
  | operator
deriving DecidableEq, Repr

/-- What was found at a place; the count is that of the characters after the first. -/
inductive Found where
  | skipped (count : Nat)
  | token (kind : Kind) (count : Nat)
  | misplaced (count : Nat)
  | stray
deriving DecidableEq, Repr

/-- A number starts here. -/
def number? (c : Char) (rest : List Char) : Option Nat :=
  if c.isDigit then some (numberLength rest)
  else if c = '.' ∧ startsWithDigit rest then some (run Char.isDigit rest)
  else none

/-- What follows the opening quote of a text. If the text never closes, the first quote of its last
pair closes it. -/
def closing? : List Char → Option Nat
  | [] => none
  | '"' :: '"' :: rest =>
      match closing? rest with
      | some n => some (n + 2)
      | none => some 1
  | '"' :: _ => some 1
  | _ :: rest => (closing? rest).map (· + 1)

/-- A quoted text starts here. -/
def text? (c : Char) (rest : List Char) : Option Nat := if c = '"' then closing? rest else none

/-- A word starts here: with any word character but a decimal digit. -/
def word? (c : Char) (rest : List Char) : Option Nat :=
  if Text.isWordChar c && !Text.isDecimal c then some (wordLength rest) else none

/-- A comment or a row of blanks starts here. -/
def skipped? (c : Char) (rest : List Char) : Option Nat :=
  let isBlank : Char → Bool := fun c => c == ' ' || c == '\t' || c == '\r'
  if c = '/' ∧ startsWith '/' rest then some (commentLength rest)
  else if isBlank c then some (run isBlank rest)
  else none

/-- Separators. -/
def separator? (c : Char) : Option (Kind × Nat) :=
  if c = ';' then some (.semicolon, 0)
  else if c = '\n' then some (.newline, 0)
  else none

/-- Operators made of signs that stand between operands, the longer ones first. -/
def signOperator? (c : Char) (rest : List Char) : Option (Kind × Nat) :=
  if c = '=' then some (if startsWith '=' rest then (.equalEqual, 1) else (.equal, 0))
  else if c = '<' then some (if startsWith '=' rest then (.lessEqual, 1) else (.less, 0))
  else if c = '>' then some (if startsWith '=' rest then (.greaterEqual, 1) else (.greater, 0))
  else if c = '!' ∧ startsWith '=' rest then some (.bangEqual, 1)
  else if c = '+' then some (.plus, 0)
  else if c = '-' then some (.minus, 0)
  else if c = '*' then some (.star, 0)
  else if c = '/' then some (.slash, 0)
  else none

/-- Operators that are words. They are not looked at beyond their letters. -/
def wordOperator? (c : Char) (rest : List Char) : Option (Kind × Nat) :=
  if c = 'a' ∧ ['n', 'd'].isPrefixOf rest then some (.andWord, 2)
  else if c = 'o' ∧ ['r'].isPrefixOf rest then some (.orWord, 1)
  else none

/-- What can come after an operand. -/
def operator? (c : Char) (rest : List Char) : Option (Kind × Nat) :=
  (wordOperator? c rest).or <| (signOperator? c rest).or <|
    if c = ')' then some (.rightParen, 0) else separator? c

/-- The words that can stand where an operand or a statement may start. -/
def admits : Expected → Kind → Bool
  | .statement, k => k == .printWord || k == .notWord || k.isLiteral
  | .operand, k => k == .notWord || k.isLiteral
  | .operator, _ => false

/-- The kind of a word where an operand or a statement may start. -/
def wordKind (expected : Expected) (word : List Char) : Kind :=
  match Kind.keyword? (String.ofList word) with
  | some k => if admits expected k then k else .identifier
  | none => .identifier

/-- What can come where an operand or a statement may start. -/
def operand? (expected : Expected) (c : Char) (rest : List Char) : Option (Kind × Nat) :=
  ((number? c rest).map fun n => (.number, n)).or <|
    ((text? c rest).map fun n => (.string, n)).or <|
    ((word? c rest).map fun n => (wordKind expected (c :: rest.take n), n)).or <|
    if c = '-' then some (.minus, 0)
    else if c = '(' then some (.leftParen, 0)
    else if expected = .statement then separator? c
    else none

/-- A lexeme of any sort that starts here, wherever it may belong. -/
def lexeme? (c : Char) (rest : List Char) : Option Nat :=
  (number? c rest).or <| (text? c rest).or <| (word? c rest).or <|
    ((signOperator? c rest).map (·.2)).or <|
    if c = '(' ∨ c = ')' ∨ c = ';' ∨ c = '\n' then some 0 else none

/-- What stands at a place. -/
def find (expected : Expected) (c : Char) (rest : List Char) : Found :=
  match skipped? c rest with
  | some n => .skipped n
  | none =>
      let wanted :=
        match expected with
        | .operator => operator? c rest
        | _ => operand? expected c rest
      match wanted with
      | some (kind, n) => .token kind n
      | none =>
          match lexeme? c rest with
          | some n => .misplaced n
          | none => .stray

/-- Where in the program the next token stands. -/
inductive Phase where
  | between
  | within (printing : Bool) (reading : Reading)
deriving Repr

namespace Phase

/-- What may come next. -/
def expected : Phase → Expected
  | between => .statement
  | within _ (.wanting _ _) => .operand
  | within _ (.holding _ _ _) => .operator

/-- Reads a token, and gives the statement it ends; none if it cannot stand here. -/
def step : Phase → Token → Option (Phase × List Node)
  | between, t =>
      if t.kind.isSeparator then some (between, [])
      else if t.kind = .printWord then some (within true .start, [])
      else (Reading.start.step t).map fun r => (within false r, [])
  | within printing r, t =>
      if t.kind.isSeparator then r.finished?.map fun e => (between, [.ofExpression printing e])
      else (r.step t).map fun r' => (within printing r', [])

/-- The statement that the end of the source ends; none if it cannot end here. -/
def finish? : Phase → Option (List Node)
  | between => some []
  | within printing r => r.finished?.map fun e => [.ofExpression printing e]

end Phase

/-- A lexeme in the wrong place. -/
def misplaced (line : Int) (text : List Char) : Diagnostic :=
  let location := if text = ['\n'] then "" else " at '" ++ String.ofList text ++ "'"
  ⟨line, location, "Unexpected token.", .compile⟩

/-- Reads the source from a place on the given line; `last` is the line of the token before. Gives
the tokens and the statements, or the first mistake. -/
def read (phase : Phase) (line last : Int) :
    List Char → Except Diagnostic (List Token × List Node)
  | [] =>
      match phase.finish? with
      | some statements => .ok ([], statements)
      | none => .error ⟨last, " at end", "Expect expression.", .compile⟩
  | c :: rest =>
      match find phase.expected c rest with
      | .skipped n => read phase line last (rest.drop n)
      | .token kind n =>
          let text := c :: rest.take n
          let t : Token := ⟨kind, String.ofList text, line⟩
          match phase.step t with
          | none => .error (misplaced line text)
          | some (after, statements) =>
              match read after (line + Scan.lineBreaks text) line (rest.drop n) with
              | .ok (tokens, others) => .ok (t :: tokens, statements ++ others)
              | .error d => .error d
      | .misplaced n => .error (misplaced line (c :: rest.take n))
      | .stray =>
          .error (.atLine line ("Unexpected character: " ++ String.singleton c) .compile)
termination_by cs => cs.length
decreasing_by
  all_goals simp only [List.length_drop, List.length_cons]; omega

/-- A word of the language that was read as a name. -/
def isKeptWord (t : Token) : Bool :=
  t.kind == .identifier && (Kind.keyword? t.lexeme).isSome

/-- Reads a source text. -/
def ofSource (source : String) : Parsed :=
  match read .between 1 1 source.toList with
  | .error d => ⟨[], [d]⟩
  | .ok (tokens, statements) =>
      match tokens.find? isKeptWord with
      | some t => ⟨[], [.atToken t "Expect expression." .compile]⟩
      | none => ⟨statements, []⟩

end Scriptlet.FrontEnd.Strict
