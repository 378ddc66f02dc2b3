import Scriptlet.Scopes

/-!
# Sequences of operations on scopes

Operations as data, so that whole histories can be run and spoken about. A block pushes a frame,
runs its operations until one fails, and pops a frame again in any case; if that last pop fails, its
failure stands for the block's. A block itself never fails.
-/

namespace Scriptlet.Scopes

/-- An operation on scopes. -/
inductive Step (α : Type) where
  | push
  | pop
  | get (name : String)
  | define (name : String) (value : α)
  | assign (name : String) (value : α)
  | globals
  | block (body : List (Step α))

/-- What an operation answers. A block answers with the answers and depths after each of its
operations, up to the failure that ended it. -/
inductive Reply (α : Type) where
  | done
  | popped (frame : Frame α)
  | found (value : α)
  | names (names : List String)
  | left (inner : List (Reply α × Nat)) (failure : Option ScopeError)

namespace Step

variable {α : Type}

mutual

/-- Runs an operation; one that fails changes nothing. -/
def run (s : Scopes α) : Step α → Scopes α × Except ScopeError (Reply α)
  | push => (s.push, .ok .done)
  | pop =>
      match s.pop with
      | .ok (frame, rest) => (rest, .ok (.popped frame))
      | .error e => (s, .error e)
  | get name =>
      match s.get? name with
      | some v => (s, .ok (.found v))
      | none => (s, .error (.undefined name))
  | define name v => (s.define name v, .ok .done)
  | assign name v => (s.assign name v, .ok .done)
  | globals => (s, .ok (.names s.globals.names))
  | block body =>
      let (after, inner, failure) := runBody s.push body
      match after.pop with
      | .ok (_, rest) => (rest, .ok (.left inner failure))
      | .error e => (after, .ok (.left inner (some e)))

/-- Runs the operations of a block up to the first that fails. -/
def runBody (s : Scopes α) :
    List (Step α) → Scopes α × List (Reply α × Nat) × Option ScopeError
  | [] => (s, [], none)
  | step :: rest =>
      match run s step with
      | (after, .ok reply) =>
          let (final, replies, failure) := runBody after rest
          (final, (reply, after.depth) :: replies, failure)
      | (after, .error e) => (after, [], some e)

end

end Step

end Scriptlet.Scopes
