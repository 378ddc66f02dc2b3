import Scriptlet.Text.Quoted
import Scriptlet.Number.Notation

/-!
# Tokens

A token is a kind, the text it was read from and the line it is reported at. The kinds are listed
once, in `Kind.all`; a kind's number and the reading of kind names go by that list. Words that the
language keeps for itself are found with `Kind.keyword?`; some of them (`Kind.isReserved`) have no
use yet beyond marking where a statement could start.
-/

namespace Scriptlet

/-- What a token is. -/
inductive Kind where
  | leftParen | rightParen | leftBrace | rightBrace | comma | dot | minus | plus | semicolon
  | slash | star
  | bangEqual | equal | equalEqual | greater | greaterEqual | less | lessEqual
  | identifier | string | number
  | andWord | classWord | elseWord | falseWord | forWord | funWord | ifWord | notWord | nullWord
  | orWord | printWord | returnWord | superWord | thisWord | trueWord | varWord | whileWord
  | newline | endOfFile
deriving DecidableEq, Repr

namespace Kind

/-- Every kind, in the order in which kinds are numbered. -/
def all : List Kind := [
  leftParen, rightParen, leftBrace, rightBrace, comma, dot, minus, plus, semicolon, slash, star,
  bangEqual, equal, equalEqual, greater, greaterEqual, less, lessEqual,
  identifier, string, number,
  andWord, classWord, elseWord, falseWord, forWord, funWord, ifWord, notWord, nullWord, orWord,
  printWord, returnWord, superWord, thisWord, trueWord, varWord, whileWord,
  newline, endOfFile]

/-- The name a kind is shown by. -/
def name : Kind → String
  | leftParen => "LEFT_PAREN"
  | rightParen => "RIGHT_PAREN"
  | leftBrace => "LEFT_BRACE"
  | rightBrace => "RIGHT_BRACE"
  | comma => "COMMA"
  | dot => "DOT"
  | minus => "MINUS"
  | plus => "PLUS"
  | semicolon => "SEMICOLON"
  | slash => "SLASH"
  | star => "STAR"
  | bangEqual => "BANG_EQUAL"
  | equal => "EQUAL"
  | equalEqual => "EQUAL_EQUAL"
  | greater => "GREATER"
  | greaterEqual => "GREATER_EQUAL"
  | less => "LESS"
  | lessEqual => "LESS_EQUAL"
  | identifier => "IDENTIFIER"
  | string => "STRING"
  | number => "NUMBER"
  | andWord => "AND"
  | classWord => "CLASS"
  | elseWord => "ELSE"
  | falseWord => "FALSE"
  | forWord => "FOR"
  | funWord => "FUN"
  | ifWord => "IF"
  | notWord => "NOT"
  | nullWord => "NULL"
  | orWord => "OR"
  | printWord => "PRINT"
  | returnWord => "RETURN"
  | superWord => "SUPER"
  | thisWord => "THIS"
  | trueWord => "TRUE"
  | varWord => "VAR"
  | whileWord => "WHILE"
  | newline => "NEWLINE"
  | endOfFile => "END_OF_FILE"

/-- The kind of a name. -/
def ofName? (s : String) : Option Kind := all.find? (·.name == s)

/-- The place of a kind in the numbering, from 1. -/
def index (k : Kind) : Nat := all.idxOf k + 1

/-- The words of the language. -/
def keywords : List (String × Kind) := [
  ("and", andWord), ("class", classWord), ("else", elseWord), ("false", falseWord),
  ("for", forWord), ("fun", funWord), ("if", ifWord), ("not", notWord), ("null", nullWord),
  ("or", orWord), ("print", printWord), ("return", returnWord), ("super", superWord),
  ("this", thisWord), ("true", trueWord), ("var", varWord), ("while", whileWord)]

/-- The kind of a word of the language. -/
def keyword? (word : String) : Option Kind := keywords.lookup word

/-- Words that are kept for statements the language does not have yet. -/
def isReserved : Kind → Bool
  | classWord | elseWord | forWord | funWord | ifWord | returnWord | superWord | thisWord
  | varWord | whileWord => true
  | _ => false

/-- Tokens that end a statement. -/
def isSeparator : Kind → Bool
  | semicolon | newline => true
  | _ => false

/-- Tokens that are an operand by themselves. -/
def isLiteral : Kind → Bool
  | number | string | identifier | trueWord | falseWord | nullWord => true
  | _ => false

/-- Operators written before their operand. -/
def isSign : Kind → Bool
  | notWord | minus => true
  | _ => false

/-- Tokens at which a statement can start again after a mistake. -/
def startsStatement (k : Kind) : Bool := k == printWord || k.isReserved

/-- How tightly an operator written between its operands binds; assignment binds least. -/
def rank? : Kind → Option Nat
  | equal => some 0
  | andWord | orWord => some 1
  | equalEqual | bangEqual => some 2
  | less | lessEqual | greater | greaterEqual => some 3
  | plus | minus => some 4
  | star | slash => some 5
  | _ => none

end Kind

/-- One token. -/
structure Token where
  kind : Kind
  lexeme : String
  line : Int
deriving DecidableEq, Repr

namespace Token

/-- A token on one line: its kind, then its text as written. -/
def text (t : Token) : String := t.kind.name ++ " " ++ t.lexeme

/-- A token as a log shows it: its kind, then its text between quotes. -/
def note (t : Token) : String := t.kind.name ++ " " ++ Text.quoted t.lexeme

/-- A token with all its fields. -/
def describe (t : Token) : String :=
  "Token(kind=<TokenKind." ++ t.kind.name ++ ": " ++ Nat.repr t.kind.index ++ ">, lexeme="
    ++ Text.quoted t.lexeme ++ ", line=" ++ Number.integerText t.line ++ ")"

/-- The token that ends every token list. -/
def endOfFile (line : Int) : Token := ⟨.endOfFile, "", line⟩

end Token

namespace Kind

theorem mem_all (k : Kind) : k ∈ all := by cases k <;> decide

theorem ofName?_name (k : Kind) : ofName? k.name = some k := by cases k <;> rfl

end Kind

end Scriptlet
