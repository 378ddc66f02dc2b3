import Scriptlet.FrontEnd.Recovering
import Scriptlet.FrontEnd.Strict

/-!
# Front ends

There are two ways from a source text to statements. They agree on the trees of valid programs;
they differ in what they make of mistakes.
-/

namespace Scriptlet

/-- The front ends by the names they are chosen with. -/
inductive FrontEnd where
  | descent
  | grammar
deriving DecidableEq, Repr

namespace FrontEnd

/-- All front ends. -/
def all : List FrontEnd := [descent, grammar]

/-- The name of a front end. -/
def name : FrontEnd → String
  | descent => "descent"
  | grammar => "grammar"

/-- The front end of a name. -/
def ofName? (s : String) : Option FrontEnd := all.find? (·.name == s)

/-- What is said about a name that no front end has, or about there being no name. -/
def unknownMessage (wanted : Option String) : String :=
  let shown := (wanted.map Text.quoted).getD "[]"
  "unknown parser " ++ shown ++ "; expected one of " ++ ", ".intercalate (all.map name)

/-- What a front end makes of a source text. -/
def parse (source : String) : FrontEnd → Parsed
  | descent => Recovering.ofScan (.ofSource source)
  | grammar => Strict.ofSource source

/-- What a log says about the tokens of a source text; only one front end has a token list. -/
def tokenNotes (source : String) : FrontEnd → List String
  | descent => ["tokens " ++ ", ".intercalate ((Scan.ofSource source).tokens.map Token.note)]
  | grammar => []

end FrontEnd

end Scriptlet
