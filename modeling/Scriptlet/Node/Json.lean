import Scriptlet.Node
import Scriptlet.Json

/-!
# Trees as JSON

Every node is an object with a `type`; tokens are objects with their kind's name, their text and
their line. Writing gives up only on trees deeper than the levels it is given. Reading looks a
node's fields up in the order in which writing puts them, and stops at the first that is missing or
wrong; fields it does not know do not matter, and neither does whether a node is in place.
-/

namespace Scriptlet

/-- Why a JSON value is not a tree. -/
inductive TreeError where
  | missingType
  | unknownType (shown : String)
  | missingField (name : String)
  | unknownKind (shown : String)
  | kindNotPlain (value : Json)
  | notObject (value : Json)
  | notIterable (value : Json)
  | badField (name : String)
  | tooDeep

namespace TreeError

/-- What is said about a JSON value that is not a tree; about its depth nothing is. -/
def message? : TreeError → Option String
  | missingType => some "Invalid AST JSON: missing type"
  | unknownType shown => some ("Unknown AST node type: " ++ shown)
  | missingField name => some (Text.quoted name)
  | unknownKind shown => some shown
  | kindNotPlain v => some ("unhashable type: '" ++ v.typeName ++ "'")
  | notObject (.str _) => some "string indices must be integers, not 'str'"
  | notObject (.arr _) => some "list indices must be integers or slices, not str"
  | notObject v => some ("'" ++ v.typeName ++ "' object is not subscriptable")
  | notIterable v => some ("'" ++ v.typeName ++ "' object is not iterable")
  | badField name => some ("bad field " ++ name)
  | tooDeep => none

end TreeError

namespace Json

/-- A field that must be there. -/
def require (v : Json) (name : String) : Except TreeError Json :=
  match v.field? name with
  | some field => pure field
  | none => throw (.missingField name)

end Json

namespace Token

/-- A token as JSON. -/
def toJson (t : Token) : Json :=
  .obj [("kind", .str t.kind.name), ("lexeme", .str t.lexeme), ("line", .int t.line)]

/-- The kind that a JSON value names; an array or an object cannot name anything. -/
def kindOfJson : Json → Except TreeError Kind
  | .str s =>
      match Kind.ofName? s with
      | some k => pure k
      | none => throw (.unknownKind (Text.quoted s))
  | .arr items => throw (.kindNotPlain (.arr items))
  | .obj fields => throw (.kindNotPlain (.obj fields))
  | v => throw (.unknownKind v.describe)

/-- A token from JSON. -/
def ofJson : Json → Except TreeError Token
  | .obj fields => do
      let v := Json.obj fields
      let kind ← kindOfJson (← v.require "kind")
      let lexeme ← v.require "lexeme"
      let line ← v.require "line"
      match lexeme, line with
      | .str s, .int n => pure ⟨kind, s, n⟩
      | .str _, _ => throw (.badField "line")
      | _, _ => throw (.badField "lexeme")
  | v => throw (.notObject v)

theorem ofJson_toJson (t : Token) : ofJson t.toJson = .ok t := by
  simp [toJson, ofJson, Json.require, Json.field?, Json.findField, kindOfJson,
    Kind.ofName?_name, bind, Except.bind, pure, Except.pure]

end Token

namespace Node

mutual

/-- A node as JSON. -/
def toJson : Nat → Node → Except TreeError Json
  | 0, _ => throw .tooDeep
  | _ + 1, literal t => pure (.obj [("type", .str "Literal"), ("token", t.toJson)])
  | levels + 1, grouping e => do
      let inner ← toJson levels e
      pure (.obj [("type", .str "Grouping"), ("expression", inner)])
  | levels + 1, unary op e => do
      let operand ← toJson levels e
      pure (.obj [("type", .str "Unary"), ("operator", op.toJson), ("operand", operand)])
  | levels + 1, binary l op r => do
      let left ← toJson levels l
      let right ← toJson levels r
      pure (.obj [("type", .str "Binary"), ("left", left), ("operator", op.toJson),
        ("right", right)])
  | levels + 1, expression e => do
      let body ← toJson levels e
      pure (.obj [("type", .str "ExpressionStmt"), ("expression", body)])
  | levels + 1, print e => do
      let body ← toJson levels e
      pure (.obj [("type", .str "PrintStmt"), ("expression", body)])
  | levels + 1, program body => do
      let items ← toJsonAll levels body
      pure (.obj [("type", .str "Program"), ("body", .arr items)])

/-- The nodes of a program as JSON. -/
def toJsonAll : Nat → List Node → Except TreeError (List Json)
  | _, [] => pure []
  | levels, n :: rest => do
      let first ← toJson levels n
      let others ← toJsonAll levels rest
      pure (first :: others)

end

/-- The values that the body of a program is read from. A text or an object stands for its
characters or its names, none of which is a node. -/
def bodyItems : Option Json → Except TreeError (List Json)
  | none => pure []
  | some (.arr items) => pure items
  | some (.str s) => pure (s.toList.map fun c => .str (String.singleton c))
  | some (.obj fields) => pure (fields.map fun field => .str field.1)
  | some v => throw (.notIterable v)

/-- A node from JSON. -/
def ofJson : Nat → Json → Except TreeError Node
  | 0, _ => throw .tooDeep
  | levels + 1, v =>
      match v.field? "type" with
      | none => throw .missingType
      | some (.str "Program") => do
          let items ← bodyItems (v.field? "body")
          let body ← items.mapM (ofJson levels)
          pure (program body)
      | some (.str "ExpressionStmt") => do
          let body ← ofJson levels (← v.require "expression")
          pure (expression body)
      | some (.str "PrintStmt") => do
          let body ← ofJson levels (← v.require "expression")
          pure (print body)
      | some (.str "Literal") => do
          let token ← Token.ofJson (← v.require "token")
          pure (literal token)
      | some (.str "Grouping") => do
          let inner ← ofJson levels (← v.require "expression")
          pure (grouping inner)
      | some (.str "Unary") => do
          let operator ← Token.ofJson (← v.require "operator")
          let operand ← ofJson levels (← v.require "operand")
          pure (unary operator operand)
      | some (.str "Binary") => do
          let left ← ofJson levels (← v.require "left")
          let operator ← Token.ofJson (← v.require "operator")
          let right ← ofJson levels (← v.require "right")
          pure (binary left operator right)
      | some type => throw (.unknownType type.shown)

end Node

end Scriptlet
