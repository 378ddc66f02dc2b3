import Scriptlet.FrontEnd

/-!
# Arguments

The command line knows five flags and one argument, the script. Arguments are first told apart on
their own: values, flags (by their name, by a start of a long name that fits only one, with a value
after `=`, or several one-letter flags in a row), and flags that do not exist. After `--` everything
is a value. Then they are taken from left to right; the first thing wrong ends it, and what no one
wanted is reported at the end.

A `--` only separates, also where a value should stand: a flag with `--` after its `=` has no value.
-/

namespace Scriptlet.CommandLine

/-- The flags. -/
inductive Flag where
  | help
  | verbose
  | frontEnd
  | emit
  | tree
deriving DecidableEq, Repr

namespace Flag

/-- The names of all flags. -/
def names : List (String × Flag) := [
  ("-h", help), ("--help", help), ("-v", verbose), ("--parser", frontEnd), ("--emit-ast", emit),
  ("--ast", tree)]

/-- The flag of a name. -/
def ofName? (name : String) : Option Flag := names.lookup name

/-- The names of a flag as usage errors show them. -/
def title : Flag → String
  | help => "-h/--help"
  | verbose => "-v"
  | frontEnd => "--parser"
  | emit => "--emit-ast"
  | tree => "--ast"

/-- The flag needs a value. -/
def takesValue : Flag → Bool
  | help => false
  | verbose => false
  | _ => true

end Flag

/-- What is wrong with a command line. -/
inductive UsageError where
  | ambiguous (argument : String) (names : List String)
  | expectedValue (flag : Flag)
  | unwantedValue (flag : Flag) (value : String)
  | invalidChoice (value : String)
  | conflict (flag other : Flag)
  | unrecognized (arguments : List String)
deriving Repr

namespace UsageError

/-- The wording of a usage error. -/
def message : UsageError → String
  | ambiguous argument names =>
      "ambiguous option: " ++ argument ++ " could match " ++ ", ".intercalate names
  | expectedValue flag => "argument " ++ flag.title ++ ": expected one argument"
  | unwantedValue flag value =>
      "argument " ++ flag.title ++ ": ignored explicit argument " ++ Text.quoted value
  | invalidChoice value =>
      "argument " ++ Flag.frontEnd.title ++ ": invalid choice: " ++ Text.quoted value
        ++ " (choose from "
        ++ ", ".intercalate (FrontEnd.all.map fun f => Text.quoted f.name) ++ ")"
  | conflict flag other =>
      "argument " ++ flag.title ++ ": not allowed with argument " ++ other.title
  | unrecognized arguments => "unrecognized arguments: " ++ " ".intercalate arguments

end UsageError

/-- An argument on its own. What is attached to a flag is what follows its name in the same argument,
without the `=` between them. -/
inductive Item where
  | value (text : String)
  | terminator
  | flag (flag : Flag) (short : Bool) (attached : Option (List Char))
  | unknown (text : String)
deriving Repr

namespace Item

/-- Splits at the first `=`. -/
def splitMark (cs : List Char) : List Char × Option (List Char) :=
  match cs.dropWhile (· != '=') with
  | [] => (cs, none)
  | _ :: after => (cs.takeWhile (· != '='), some after)

/-- Digits with at most one point, which digits follow. -/
def isPlainNumber (cs : List Char) : Bool :=
  match cs.dropWhile Text.isDecimal with
  | [] => !cs.isEmpty
  | '.' :: fraction => !fraction.isEmpty && fraction.all Text.isDecimal
  | _ => false

/-- Characters without the line break that ends them, if one does. -/
def withoutFinalBreak (cs : List Char) : List Char :=
  if cs.getLast? = some '\n' then cs.dropLast else cs

/-- A minus sign before a plain number; a line break at the end does not matter. -/
def isNegativeNumber : List Char → Bool
  | '-' :: cs => isPlainNumber (withoutFinalBreak cs)
  | _ => false

/-- An argument that starts with a dash but is no flag: a negative number or a text with a blank is
a value. -/
def notFlag (cs : List Char) : Item :=
  if isNegativeNumber cs || cs.contains ' ' then value (String.ofList cs)
  else unknown (String.ofList cs)

/-- A flag by the start of its long name, or several one-letter flags in a row. -/
def ofStart (cs : List Char) : Except UsageError Item :=
  let (start, after) := splitMark cs
  match cs with
  | '-' :: '-' :: _ =>
      match Flag.names.filter fun entry => start.isPrefixOf entry.1.toList with
      | [] => .ok (notFlag cs)
      | [(name, f)] => .ok (flag f (!name.startsWith "--") after)
      | several => .error (.ambiguous (String.ofList cs) (several.map (·.1)))
  | dash :: letter :: rest =>
      match Flag.ofName? (String.ofList [dash, letter]) with
      | some f => .ok (flag f true (some rest))
      | none => .ok (notFlag cs)
  | _ => .ok (notFlag cs)

/-- Tells what an argument before `--` is. -/
def ofArgument (argument : String) : Except UsageError Item :=
  match argument.toList with
  | '-' :: [] => .ok (value argument)
  | '-' :: rest =>
      let cs := '-' :: rest
      let (name, after) := splitMark cs
      match Flag.ofName? argument, Flag.ofName? (String.ofList name) with
      | some f, _ => .ok (flag f (!argument.startsWith "--") none)
      | none, some f => .ok (flag f (!(String.ofList name).startsWith "--") after)
      | none, none => ofStart cs
  | _ => .ok (value argument)

/-- Tells what arguments are; after `--` all are values. -/
def ofArguments : List String → Except UsageError (List Item)
  | [] => .ok []
  | "--" :: rest => .ok (terminator :: rest.map value)
  | argument :: rest => do
      let item ← ofArgument argument
      let items ← ofArguments rest
      pure (item :: items)

end Item

/-- What the command line asks for. Without a script, a tree or something to emit it asks for a
prompt. There is no front end if one was asked for without a value. -/
structure Options where
  verbosity : Nat := 0
  frontEnd : Option FrontEnd := some .descent
  emit : Option String := none
  tree : Option String := none
  script : Option String := none
deriving Repr

/-- Why taking arguments stopped before the end. -/
inductive Stop where
  | help
  | wrong (error : UsageError)
deriving Repr

/-- The arguments taken so far. -/
structure Taken where
  options : Options := {}
  scriptTaken : Bool := false
  unwanted : List String := []
deriving Repr

namespace Taken

/-- Sets what a flag with a value asks for, or without one. A path that is missing is an empty one. -/
def set (taken : Taken) : Flag → Option String → Except Stop Taken
  | .help, _ => .error .help
  | .verbose, _ =>
      .ok { taken with options.verbosity := taken.options.verbosity + 1 }
  | .frontEnd, none => .ok { taken with options.frontEnd := none }
  | .frontEnd, some value =>
      match FrontEnd.ofName? value with
      | some f => .ok { taken with options.frontEnd := some f }
      | none => .error (.wrong (.invalidChoice value))
  | .emit, value =>
      if taken.options.tree.isSome then .error (.wrong (.conflict .emit .tree))
      else .ok { taken with options.emit := some (value.getD "") }
  | .tree, value =>
      if taken.options.emit.isSome then .error (.wrong (.conflict .tree .emit))
      else .ok { taken with options.tree := some (value.getD "") }

/-- A one-letter flag and the one-letter flags that the letters after it stand for. From the first
letter that stands for none, the rest is a value that the flag before it does not want. -/
def row (flag : Flag) : List Char → Except UsageError (List Flag)
  | [] => .ok [flag]
  | c :: rest =>
      match Flag.ofName? (String.ofList ['-', c]) with
      | some next => do
          let flags ← row next rest
          pure (flag :: flags)
      | none => .error (.unwantedValue flag (String.ofList (c :: rest)))

/-- Takes a row of flags that need no value. -/
def setRow (taken : Taken) : List Flag → Except Stop Taken
  | [] => .ok taken
  | f :: rest => do (← taken.set f none).setRow rest

/-- Takes the script. -/
def setScript (taken : Taken) (value : String) : Taken :=
  { taken with options.script := some value, scriptTaken := true }

/-- Puts an argument aside that no one wants. -/
def putAside (taken : Taken) (argument : String) : Taken :=
  { taken with unwanted := taken.unwanted ++ [argument] }

/-- The value that an attached text is; a `--` is none. -/
def attachedValue (attached : List Char) : Option String :=
  if attached = ['-', '-'] then none else some (String.ofList attached)

/-- Takes a flag with what is attached to it: its value, or a row of one-letter flags. A row is taken
only if all of it is right. -/
def setAttached (taken : Taken) (flag : Flag) (short : Bool) (attached : List Char) :
    Except Stop Taken :=
  if flag.takesValue then taken.set flag (attachedValue attached)
  else if !short || attached.isEmpty then
    .error (.wrong (.unwantedValue flag (String.ofList attached)))
  else
    match row flag attached with
    | .error e => .error (.wrong e)
    | .ok flags => taken.setRow flags

/-- Takes arguments from left to right. A `--` next to the script belongs to it. -/
def takeAll (taken : Taken) : List Item → Except Stop Taken
  | [] => .ok taken
  | .terminator :: .value v :: rest =>
      if taken.scriptTaken then ((taken.putAside "--").putAside v).takeAll rest
      else (taken.setScript v).takeAll rest
  | .terminator :: rest =>
      (if taken.scriptTaken then taken.putAside "--" else taken).takeAll rest
  | .value v :: .terminator :: rest =>
      if taken.scriptTaken then ((taken.putAside v).putAside "--").takeAll rest
      else (taken.setScript v).takeAll rest
  | .value v :: rest =>
      (if taken.scriptTaken then taken.putAside v else taken.setScript v).takeAll rest
  | .unknown text :: rest => (taken.putAside text).takeAll rest
  | .flag f short (some attached) :: rest => do
      let taken ← taken.setAttached f short attached
      taken.takeAll rest
  | .flag f _ none :: rest =>
      if f.takesValue then
        match rest with
        | .value v :: rest => do
            let taken ← taken.set f (some v)
            taken.takeAll rest
        | _ => .error (.wrong (.expectedValue f))
      else do
        let taken ← taken.set f none
        taken.takeAll rest

end Taken

namespace Options

/-- What a command line asks for. -/
def ofArguments (arguments : List String) : Except Stop Options :=
  match Item.ofArguments arguments with
  | .error e => .error (.wrong e)
  | .ok items =>
      match Taken.takeAll {} items with
      | .error stop => .error stop
      | .ok taken =>
          if taken.unwanted.isEmpty then .ok taken.options
          else .error (.wrong (.unrecognized taken.unwanted))

end Options

end Scriptlet.CommandLine
