import Scriptlet.Node
import Scriptlet.Number.Numeral
import Scriptlet.Operation
import Scriptlet.Scopes

/-!
# Evaluation

The value of an expression in scopes. Evaluation can change the scopes, by assignment only, and it
keeps what it changed when it fails. It fails with a cause at a token, or because the tree is too
deep, or because the tree is not one the grammar allows; the last of these is not a fault of the
program and is kept apart.

A node takes one of the levels that an evaluation may descend, an assignment two. Looking a name up,
finding it unknown, applying an operator and writing an assignment to a log take none: the limit
leaves room for each of them, three levels at most, and a tree that would have to use this room is
too deep. So whether a tree is too deep does not depend on which names are known, on the values or
on the log. What is assigned is also written down in order, for logs; nothing reads it back.
-/

namespace Scriptlet

/-- Why a tree from outside cannot be run. -/
inductive Malformed where
  | statement (node : Node)
  | expression (node : Node)
  | node (node : Node)
  | numeral (lexeme : String)
  | program (node : Node)
deriving Repr

namespace Malformed

/-- What is said about a tree that cannot be run. -/
def message : Malformed → String
  | statement n => "unknown statement " ++ n.describe
  | expression n => "unknown expression " ++ n.describe
  | node n => "unknown node " ++ n.describe
  | numeral lexeme => "could not convert string to float: " ++ Text.quoted lexeme
  | program n => "'" ++ n.formName ++ "' object is not iterable"

end Malformed

/-- Why an evaluation stopped. -/
inductive Fault where
  | failed (token : Token) (cause : Cause)
  | tooDeep
  | malformed (reason : Malformed)
deriving Repr

/-- What evaluation works on: the scopes, and the assignments made so far, latest first. -/
structure Memory where
  scopes : Scopes Value
  assigned : List (String × Value) := []

/-- An evaluation. A failure keeps the memory as it was when it arose. -/
abbrev Evaluation (α : Type) := EStateM Fault Memory α

namespace Evaluation

/-- Fails at a token. -/
def fail {α : Type} (t : Token) (cause : Cause) : Evaluation α := throw (.failed t cause)

/-- The text between the first and the last character, with doubled quotes as single ones. -/
def unquote (lexeme : String) : String :=
  String.ofList (undouble (lexeme.toList.drop 1).dropLast)
where
  undouble : List Char → List Char
    | [] => []
    | '"' :: '"' :: rest => '"' :: undouble rest
    | c :: rest => c :: undouble rest

/-- The value of a literal. -/
def literal (t : Token) : Evaluation Value :=
  match t.kind with
  | .number =>
      match Numeral.value? t.lexeme with
      | some x => pure (.number x)
      | none => throw (.malformed (.numeral t.lexeme))
  | .string => pure (.text (unquote t.lexeme))
  | .trueWord => pure (.ofBool true)
  | .falseWord => pure (.ofBool false)
  | .nullWord => pure .null
  | .identifier => do
      match (← get).scopes.get? t.lexeme with
      | some v => pure v
      | none => fail t .undefined
  | _ => fail t .unexpectedLiteral

/-- Applies a prefix operator; every one of them wants a number. -/
def prefixed (op : Token) : Value → Evaluation Value
  | .number x =>
      match op.kind with
      | .minus => pure (.number (-x))
      | .notWord => pure (.ofBool (!(Value.number x).isTruthy))
      | _ => fail op .unknownUnary
  | v => fail op (.operandNotNumber v.typeName)

/-- Applies an operator between two values. -/
def operation (op : Token) (a b : Value) : Evaluation Value :=
  match Operation.apply op.kind a b with
  | .ok v => pure v
  | .error cause => fail op cause

/-- Writes a value to a name. -/
def assign (name : String) (v : Value) : Evaluation Unit :=
  modify fun m => { scopes := m.scopes.assign name v, assigned := (name, v) :: m.assigned }

/-- The name that an assignment writes to. -/
def target? : Node → Option String
  | .literal t => if t.kind = .identifier then some t.lexeme else none
  | _ => none

/-- The value of an expression. -/
def evaluate : Nat → Node → Evaluation Value
  | 0, _ => throw .tooDeep
  | _ + 1, .literal t => literal t
  | levels + 1, .grouping e => evaluate levels e
  | levels + 1, .unary op e => do
      let operand ← evaluate levels e
      prefixed op operand
  | levels + 1, .binary l op r =>
      match op.kind with
      | .equal =>
          match target? l with
          | none => fail op .invalidTarget
          | some name => do
              let v ← evaluate (levels - 1) r
              assign name v
              pure v
      | .andWord => do
          let left ← evaluate levels l
          if left.isTruthy then
            let right ← evaluate levels r
            pure (.ofBool right.isTruthy)
          else pure (.ofBool false)
      | .orWord => do
          let left ← evaluate levels l
          if left.isTruthy then pure (.ofBool true)
          else
            let right ← evaluate levels r
            pure (.ofBool right.isTruthy)
      | _ => do
          let left ← evaluate levels l
          let right ← evaluate levels r
          operation op left right
  | _ + 1, n => throw (.malformed (.expression n))
termination_by structural _ node => node

end Evaluation

end Scriptlet
