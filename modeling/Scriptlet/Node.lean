import Scriptlet.Token

/-!
# Syntax trees

A node keeps the tokens it was read from, so that a fault can be reported where it arose. Trees that
come from outside need not obey the grammar: a statement or a whole program can stand where an
expression belongs. There is therefore one type of node, and each operation says what it does with a
node that is out of place.

Operations that walk a whole tree take the number of levels they may descend; a deeper tree is
refused.
-/

namespace Scriptlet

/-- A node of a syntax tree. -/
inductive Node where
  | literal (token : Token)
  | grouping (inner : Node)
  | unary (operator : Token) (operand : Node)
  | binary (left : Node) (operator : Token) (right : Node)
  | expression (body : Node)
  | print (body : Node)
  | program (body : List Node)
deriving Repr

namespace Node

/-- The levels that a walk over one statement may descend. It leaves room for what is done at the
last node, so that only nodes take levels. -/
def depthLimit : Nat := 985

/-- Why a walk over a tree stopped. -/
inductive Refusal where
  | tooDeep
  | outOfPlace (node : Node)
deriving Repr

/-- The name of a node's form. -/
def formName : Node → String
  | literal _ => "Literal"
  | grouping _ => "Grouping"
  | unary _ _ => "Unary"
  | binary _ _ _ => "Binary"
  | expression _ => "ExpressionStmt"
  | print _ => "PrintStmt"
  | program _ => "list"

mutual

/-- A node with all its fields. -/
def describe : Node → String
  | literal t => "Literal(token=" ++ t.describe ++ ")"
  | grouping e => "Grouping(expression=" ++ describe e ++ ")"
  | unary op e => "Unary(operator=" ++ op.describe ++ ", operand=" ++ describe e ++ ")"
  | binary l op r =>
      "Binary(left=" ++ describe l ++ ", operator=" ++ op.describe ++ ", right=" ++ describe r ++ ")"
  | expression e => "ExpressionStmt(expression=" ++ describe e ++ ")"
  | print e => "PrintStmt(expression=" ++ describe e ++ ")"
  | program body => "[" ++ ", ".intercalate (describeAll body) ++ "]"

/-- The nodes of a program with all their fields. -/
def describeAll : List Node → List String
  | [] => []
  | n :: rest => describe n :: describeAll rest

end

/-- A node in parenthesised form with operators first: `-1 * (2)` is `(* (- 1) (group 2))`. -/
def format : Nat → Node → Except Refusal String
  | 0, _ => throw .tooDeep
  | _ + 1, literal t => pure t.lexeme
  | levels + 1, grouping e => do
      let inner ← format levels e
      pure ("(group " ++ inner ++ ")")
  | levels + 1, unary op e => do
      let operand ← format levels e
      pure ("(" ++ op.lexeme ++ " " ++ operand ++ ")")
  | levels + 1, binary l op r => do
      let left ← format levels l
      let right ← format levels r
      pure ("(" ++ op.lexeme ++ " " ++ left ++ " " ++ right ++ ")")
  | levels + 1, expression e => format levels e
  | levels + 1, print e => do
      let body ← format levels e
      pure ("print " ++ body)
  | _ + 1, program body => throw (.outOfPlace (program body))

/-- The line of the token a node starts with; parentheses and `print` are not kept in the tree, so
they do not count. A program has no line; it is given back instead. -/
def line : Node → Except Node Int
  | literal t => pure t.line
  | grouping e => line e
  | unary op _ => pure op.line
  | binary l _ _ => line l
  | expression e => line e
  | print e => line e
  | program body => throw (program body)

end Node

end Scriptlet
