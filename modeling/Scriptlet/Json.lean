import Scriptlet.Number.Notation
import Scriptlet.Text.Quoted

/-!
# JSON values

Integers are kept apart from numbers written with a point or a power of ten, and the fields of an
object keep the order in which they were first written. A field written twice has its last value.
-/

namespace Scriptlet

/-- A JSON value. -/
inductive Json where
  | null
  | bool (b : Bool)
  | int (n : Int)
  | float (x : Float)
  | str (s : String)
  | arr (items : List Json)
  | obj (fields : List (String × Json))

namespace Json

/-- Sets a field, in the place of an older one of the same name if there is one. -/
def setField (name : String) (v : Json) : List (String × Json) → List (String × Json)
  | [] => [(name, v)]
  | field :: rest =>
      if field.1 = name then (name, v) :: rest else field :: setField name v rest

/-- A field among fields. -/
def findField (name : String) : List (String × Json) → Option Json
  | [] => none
  | field :: rest => if field.1 = name then some field.2 else findField name rest

/-- A field of an object. -/
def field? (name : String) : Json → Option Json
  | obj fields => findField name fields
  | _ => none

/-- The name of the type of a value. -/
def typeName : Json → String
  | null => "NoneType"
  | bool _ => "bool"
  | int _ => "int"
  | float _ => "float"
  | str _ => "str"
  | arr _ => "list"
  | obj _ => "dict"

mutual

/-- A value as messages show it inside another one. -/
def describe : Json → String
  | null => "None"
  | bool b => if b then "True" else "False"
  | int n => Number.integerText n
  | float x => Number.exactText x
  | str s => Text.quoted s
  | arr items => "[" ++ ", ".intercalate (describeItems items) ++ "]"
  | obj fields => "\x7b" ++ ", ".intercalate (describeFields fields) ++ "\x7d"

/-- The items of an array as messages show them. -/
def describeItems : List Json → List String
  | [] => []
  | v :: rest => describe v :: describeItems rest

/-- The fields of an object as messages show them. -/
def describeFields : List (String × Json) → List String
  | [] => []
  | (name, v) :: rest => (Text.quoted name ++ ": " ++ describe v) :: describeFields rest

end

/-- A value as messages show it: a text stands for itself. -/
def shown : Json → String
  | str s => s
  | v => describe v

end Json

end Scriptlet
