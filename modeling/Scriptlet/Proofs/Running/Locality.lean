import Scriptlet.Proofs.Running.Bindings
import Scriptlet.Proofs.Scopes.Writing

/-!
# What an evaluation reads and writes

An expression reads the names that stand in it and no others, and it writes to the targets of its
assignments and to no others. The first is a statement about two evaluations of one tree, in scopes
that may have different frames but show the same under the names of the tree (`Scopes.Agree`): they
come to the same value or to the same fault, and leave scopes that agree again
(`Evaluation.evaluate_respects`). Evaluations are put together from smaller ones, and so is this
(`Evaluation.Respects`), one case for each form of node; an assignment may write to different frames
on the two sides, which look-ups cannot tell (`Scopes.get?_assign`).

The second needs one evaluation only. That all other names keep their bindings, frame by frame
(`Scopes.SameBut`), survives every write to a target, and so it survives the evaluation
(`Evaluation.evaluate_keeps`), whether it fails or not.
-/

namespace Scriptlet

/-- The names that stand in a tree. -/
def Node.names : Node → List String
  | literal t => if t.kind = .identifier then [t.lexeme] else []
  | grouping e => names e
  | unary _ e => names e
  | binary l _ r => names l ++ names r
  | expression e => names e
  | print e => names e
  | program _ => []

/-! ## Scopes that cannot be told apart -/

namespace Scopes

variable {α : Type}

/-- Under each of the names both scopes show the same value, or both show none. -/
def Agree (names : List String) (s t : Scopes α) : Prop := ∀ name ∈ names, s.get? name = t.get? name

theorem Agree.assign {names : List String} {s t : Scopes α} (h : Agree names s t) (name : String)
    (a : α) : Agree names (s.assign name a) (t.assign name a) := by
  intro m hm
  rw [get?_assign, get?_assign, h m hm]

/-- The scopes have as many frames, and every other name has the same binding in each of them. -/
structure SameBut (names : List String) (s t : Scopes α) : Prop where
  depth : t.depth = s.depth
  bindings : ∀ name, name ∉ names → t.frames.map (·.get? name) = s.frames.map (·.get? name)

theorem SameBut.refl (names : List String) (s : Scopes α) : SameBut names s s :=
  ⟨rfl, fun _ _ => rfl⟩

theorem SameBut.assign {names : List String} {s t : Scopes α} (h : SameBut names s t)
    {name : String} (hname : name ∈ names) (a : α) : SameBut names s (t.assign name a) where
  depth := by rw [depth_assign, h.depth]
  bindings m hm := by
    have hne : m ≠ name := by
      rintro rfl
      exact hm hname
    rw [map_get?_frames_assign t hne, h.bindings m hm]

end Scopes

/-! ## Two evaluations side by side -/

namespace Evaluation

open Scopes (Agree SameBut)

variable {α β : Type} {names : List String}

/-- Two evaluations came to the same: to one value or to one fault, in scopes that agree. -/
inductive Alike (names : List String) :
    EStateM.Result Fault Memory α → EStateM.Result Fault Memory α → Prop
  | ok {a : α} {m m' : Memory} (agree : Agree names m.scopes m'.scopes) :
      Alike names (.ok a m) (.ok a m')
  | error {fault : Fault} {m m' : Memory} (agree : Agree names m.scopes m'.scopes) :
      Alike names (.error fault m) (.error fault m')

/-- In scopes that agree on the names, an evaluation comes to the same. -/
def Respects (names : List String) (x : Evaluation α) : Prop :=
  ∀ m m' : Memory, Agree names m.scopes m'.scopes → Alike names (x.run m) (x.run m')

namespace Respects

theorem pure (a : α) : Respects names (pure a) := fun _ _ h => .ok h

theorem throw (fault : Fault) : Respects names (throw fault : Evaluation α) := fun _ _ h => .error h

theorem bind {x : Evaluation α} {f : α → Evaluation β} (hx : Respects names x)
    (hf : ∀ a, Respects names (f a)) : Respects names (x >>= f) := by
  intro m m' h
  have hfirst := hx m m' h
  rw [EStateM.run_bind, EStateM.run_bind]
  generalize x.run m = result at hfirst
  generalize x.run m' = result' at hfirst
  cases hfirst with
  | ok agree => exact hf _ _ _ agree
  | error agree => exact .error agree

/-- What is read from the memory must be the same on both sides. -/
theorem get_bind {f : Memory → Evaluation α}
    (hf : ∀ m m' : Memory, Agree names m.scopes m'.scopes → f m = f m')
    (hresult : ∀ m, Respects names (f m)) : Respects names (get >>= f) := by
  intro m m' h
  have hrun : (get >>= f : Evaluation α).run m' = (f m).run m' := by
    rw [hf m m' h]
    rfl
  rw [hrun]
  exact hresult m m m' h

end Respects

theorem literal_respects {t : Token} (hname : t.kind = .identifier → t.lexeme ∈ names) :
    Respects names (literal t) := by
  unfold literal
  split
  · cases Numeral.value? t.lexeme with
    | some x => exact .pure _
    | none => exact .throw _
  · exact .pure _
  · exact .pure _
  · exact .pure _
  · exact .pure _
  · next hkind =>
    refine .get_bind ?_ ?_
    · intro m m' h
      rw [h t.lexeme (hname hkind)]
    · intro m
      cases m.scopes.get? t.lexeme with
      | some v => exact .pure v
      | none => exact .throw _
  · exact .throw _

theorem prefixed_respects (op : Token) (v : Value) : Respects names (prefixed op v) := by
  cases v with
  | number x =>
    simp only [prefixed]
    split
    · exact .pure _
    · exact .pure _
    · exact .throw _
  | null | text | failure | foreign => exact .throw _

theorem operation_respects (op : Token) (a b : Value) : Respects names (operation op a b) := by
  unfold operation
  cases Operation.apply op.kind a b with
  | ok v => exact .pure v
  | error cause => exact .throw _

theorem assign_respects (name : String) (v : Value) : Respects names (assign name v) :=
  fun _ _ h => .ok (h.assign name v)

/-- An evaluation comes to the same in scopes that agree on the names of its tree. -/
theorem evaluate_respects : ∀ (levels : Nat) (e : Node), (∀ name ∈ e.names, name ∈ names) →
    Respects names (evaluate levels e)
  | 0, _, _ => by
    rw [evaluate]
    exact .throw _
  | _ + 1, .literal t, hnames => by
    refine literal_respects fun hkind => hnames t.lexeme ?_
    rw [Node.names, if_pos hkind]
    exact List.mem_singleton.2 rfl
  | levels + 1, .grouping e, hnames => evaluate_respects levels e hnames
  | levels + 1, .unary op e, hnames =>
    .bind (evaluate_respects levels e hnames) fun v => prefixed_respects op v
  | levels + 1, .binary l op r, hnames => by
    have hl := evaluate_respects levels l fun name hname =>
      hnames name (List.mem_append_left _ hname)
    have hr := fun levels => evaluate_respects levels r fun name hname =>
      hnames name (List.mem_append_right _ hname)
    rw [evaluate]
    split
    · cases target? l with
      | none => exact .throw _
      | some name =>
        exact .bind (hr _) fun v => .bind (assign_respects name v) fun _ => .pure v
    · refine .bind hl fun left => ?_
      split
      · exact .bind (hr levels) fun right => .pure _
      · exact .pure _
    · refine .bind hl fun left => ?_
      split
      · exact .pure _
      · exact .bind (hr levels) fun right => .pure _
    · exact .bind hl fun left => .bind (hr levels) fun right => operation_respects op left right
  | _ + 1, .expression _, _ => .throw _
  | _ + 1, .print _, _ => .throw _
  | _ + 1, .program _, _ => .throw _
termination_by structural _ e => e

/-! ## What one evaluation leaves -/

/-- The scopes that an evaluation leaves, also where it fails. -/
def leaves (x : Evaluation α) (m : Memory) : Scopes Value :=
  match x.run m with
  | .ok _ m' => m'.scopes
  | .error _ m' => m'.scopes

theorem Keeps.leaves {sort : Scopes Value → Prop} {result : α → Prop} {x : Evaluation α}
    (h : Keeps sort result x) {m : Memory} (hm : sort m.scopes) : sort (x.leaves m) := by
  have hrun := h m hm
  unfold Evaluation.leaves
  cases heq : x.run m with
  | ok a m' =>
    rw [heq] at hrun
    exact hrun.1
  | error fault m' =>
    rw [heq] at hrun
    exact hrun

/-- An evaluation writes to the targets of its tree only. -/
theorem evaluate_sameBut (levels : Nat) (e : Node) (m : Memory) :
    SameBut e.targets m.scopes ((evaluate levels e).leaves m) := by
  have hstable : Stable (· ∈ e.targets) (SameBut e.targets m.scopes) fun _ => True :=
    .of_written fun hscopes hname => hscopes.assign hname _
  exact (evaluate_keeps hstable levels e fun _ hname => hname).leaves (.refl ..)

/-- **An evaluation depends on the names of its tree and changes the targets of its assignments.**
In two memories whose scopes, whatever their frames, show the same under every name that stands in
the tree, it comes to the same value or to the same fault, and the scopes agree on those names
again. In either memory, and also where the evaluation fails, a name that is no target keeps its
binding in every frame, and there are as many frames as before. -/
theorem evaluate_local (levels : Nat) (e : Node) (m m' : Memory)
    (h : Agree e.names m.scopes m'.scopes) :
    Alike e.names ((evaluate levels e).run m) ((evaluate levels e).run m') ∧
      SameBut e.targets m.scopes ((evaluate levels e).leaves m) ∧
      SameBut e.targets m'.scopes ((evaluate levels e).leaves m') := by
  have halike := evaluate_respects levels e (fun _ hname => hname) m m' h
  exact ⟨halike, evaluate_sameBut levels e m, evaluate_sameBut levels e m'⟩

/-- In `(z = x) + y` the target is assigned before the sum fails. One side has `y` in a frame of its
own, the other has one frame with a name that the tree does not know. -/
theorem evaluate_local_failed_sum :
    let name (text : String) : Node := .literal ⟨.identifier, text, 1⟩
    let plus : Token := ⟨.plus, "+", 1⟩
    let e := Node.binary (.grouping (.binary (name "z") ⟨.equal, "=", 1⟩ (name "x"))) plus (name "y")
    let m : Memory := { scopes := (Scopes.empty.define "x" (.text "a")).push.define "y" .null }
    let m' : Memory := { scopes :=
      ((Scopes.empty.define "x" (.text "a")).define "y" .null).define "w" .null }
    let x := evaluate Node.depthLimit e
    Agree e.names m.scopes m'.scopes ∧ Alike e.names (x.run m) (x.run m') ∧
      (∃ left, x.run m = .error (.failed plus (.unsupported "String" "Null")) left) ∧
      SameBut ["z"] m.scopes (x.leaves m) ∧ SameBut ["z"] m'.scopes (x.leaves m') ∧
      (x.leaves m).frames.map (·.names) = [["x", "z"], ["y"]] ∧
      (x.leaves m').frames.map (·.names) = [["w", "x", "y", "z"]] := by
  intro name plus e m m' x
  have hagree : Agree e.names m.scopes m'.scopes := by
    intro n hn
    have hnames : n = "z" ∨ n = "x" ∨ n = "y" := by simpa [e, name, Node.names] using hn
    rcases hnames with rfl | rfl | rfl <;> rfl
  obtain ⟨halike, hleft, hright⟩ := evaluate_local Node.depthLimit e m m' hagree
  exact ⟨hagree, halike, ⟨_, rfl⟩, hleft, hright, by decide +kernel, by decide +kernel⟩

end Evaluation

end Scriptlet
