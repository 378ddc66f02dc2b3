import Scriptlet.Frame

/-!
# Scopes

The names a program can see: a global frame that lasts, and frames inside it that are pushed and
popped. Look-ups go from the innermost frame outwards. A definition binds in the innermost frame; an
assignment writes where the name is bound, and makes an unbound name global. That there is always a
global frame is part of the type, so only popping can fail.
-/

namespace Scriptlet

/-- A global frame and the frames inside it, innermost first. -/
structure Scopes (α : Type) where
  globals : Frame α
  inner : List (Frame α)

/-- Why an operation on scopes fails. -/
inductive ScopeError where
  | undefined (name : String)
  | onlyGlobal
deriving DecidableEq, Repr

/-- The wording of a scope error. -/
def ScopeError.message : ScopeError → String
  | undefined name => name
  | onlyGlobal => "cannot pop the global scope"

namespace Scopes

variable {α : Type}

/-- Only the global frame, without names. -/
def empty : Scopes α := ⟨.empty, []⟩

/-- The frames from the global one inwards. -/
def frames (s : Scopes α) : List (Frame α) := s.globals :: s.inner.reverse

/-- The number of frames. -/
def depth (s : Scopes α) : Nat := s.inner.length + 1

/-- Enters a new frame. -/
def push (s : Scopes α) : Scopes α := { s with inner := .empty :: s.inner }

/-- Leaves the innermost frame; the global one cannot be left. -/
def pop (s : Scopes α) : Except ScopeError (Frame α × Scopes α) :=
  match s.inner with
  | [] => .error .onlyGlobal
  | f :: rest => .ok (f, { s with inner := rest })

/-- What a name is bound to in the nearest frame that binds it. -/
def get? (s : Scopes α) (name : String) : Option α :=
  (s.inner.findSome? (·.get? name)).or (s.globals.get? name)

/-- Binds a name in the innermost frame. -/
def define (s : Scopes α) (name : String) (a : α) : Scopes α :=
  match s.inner with
  | [] => { s with globals := s.globals.insert name a }
  | f :: rest => { s with inner := f.insert name a :: rest }

/-- Binds a name in the global frame. -/
def defineGlobal (s : Scopes α) (name : String) (a : α) : Scopes α :=
  { s with globals := s.globals.insert name a }

/-- Writes to the first frame that binds the name, if there is one. -/
def assignInner (name : String) (a : α) : List (Frame α) → Option (List (Frame α))
  | [] => none
  | f :: rest =>
      if f.contains name then some (f.insert name a :: rest)
      else (assignInner name a rest).map (f :: ·)

/-- Writes where the name is bound; an unbound name becomes global. -/
def assign (s : Scopes α) (name : String) (a : α) : Scopes α :=
  match assignInner name a s.inner with
  | some inner => { s with inner }
  | none => s.defineGlobal name a

@[simp] theorem length_frames (s : Scopes α) : s.frames.length = s.depth := by
  simp [frames, depth]

@[simp] theorem depth_push (s : Scopes α) : s.push.depth = s.depth + 1 := rfl

@[simp] theorem pop_push (s : Scopes α) : s.push.pop = .ok (.empty, s) := rfl

end Scopes

end Scriptlet
