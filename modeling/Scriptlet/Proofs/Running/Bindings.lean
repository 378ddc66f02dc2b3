import Scriptlet.Proofs.Running.Statements
import Scriptlet.Proofs.Syntax.Relabelling

/-!
# What running does to scopes

An evaluation changes scopes in one way only, by writing to the names that its tree assigns to
(`Node.targets`), and it keeps what it wrote when it fails. So a property of scopes survives every
evaluation if it survives such writes, and the values that are written are known as soon as it is
known what the scopes hold: everything else that a program computes is null, a number or a text
(`Value.Plain`). `Evaluation.Stable` collects these conditions, and `Evaluation.evaluate_keeps` says
that they are enough, one case for each form of node.

A statement writes once more, to the name of the latest value; with that one condition added
(`Run.Stable`) the property survives statements and whole runs (`Run.Stable.statements`), whatever
fails in them.
-/

namespace Scriptlet

/-- The values that programs compute: neither diagnostics nor values made by a host. -/
inductive Value.Plain : Value → Prop
  | null : Plain .null
  | number (x : Float) : Plain (.number x)
  | text (s : String) : Plain (.text s)

/-! ## The names a tree assigns to -/

namespace Node

/-- The names that the assignments in a tree write to. -/
def targets : Node → List String
  | literal _ => []
  | grouping e => targets e
  | unary _ e => targets e
  | binary l op r =>
      (if op.kind = .equal then (Evaluation.target? l).toList else []) ++ targets l ++ targets r
  | expression e => targets e
  | print e => targets e
  | program _ => []

theorem exists_token_of_target? {n : Node} {name : String}
    (h : Evaluation.target? n = some name) :
    ∃ t ∈ n.tokens, t.kind = .identifier ∧ t.lexeme = name := by
  cases n with
  | literal t =>
    simp only [Evaluation.target?] at h
    split at h
    · next hkind => exact ⟨t, List.mem_singleton.2 rfl, hkind, Option.some.inj h⟩
    · cases h
  | _ => cases h

/-- A name that a tree assigns to stands in it. -/
theorem exists_token_of_mem_targets : ∀ {n : Node} {name : String}, name ∈ n.targets →
    ∃ t ∈ n.tokens, t.kind = .identifier ∧ t.lexeme = name
  | literal _, _, h => absurd h List.not_mem_nil
  | grouping e, _, h => exists_token_of_mem_targets (n := e) h
  | unary op e, _, h => by
    obtain ⟨t, ht, hname⟩ := exists_token_of_mem_targets (n := e) h
    exact ⟨t, List.mem_cons_of_mem _ ht, hname⟩
  | binary l op r, name, h => by
    have hleft : (∃ t ∈ l.tokens, t.kind = .identifier ∧ t.lexeme = name) →
        ∃ t ∈ (binary l op r).tokens, t.kind = .identifier ∧ t.lexeme = name :=
      fun ⟨t, ht, hname⟩ => ⟨t, List.mem_append_left _ ht, hname⟩
    rcases List.mem_append.1 h with h | h
    · rcases List.mem_append.1 h with h | h
      · split at h
        · exact hleft (exists_token_of_target? (Option.mem_toList.1 h))
        · cases h
      · exact hleft (exists_token_of_mem_targets h)
    · obtain ⟨t, ht, hname⟩ := exists_token_of_mem_targets (n := r) h
      exact ⟨t, List.mem_append_right _ (List.mem_cons_of_mem _ ht), hname⟩
  | expression e, _, h => exists_token_of_mem_targets (n := e) h
  | print e, _, h => exists_token_of_mem_targets (n := e) h
  | program _, _, h => absurd h List.not_mem_nil

end Node

/-! ## Operations -/

namespace Operation

theorem plain_repetition {s : String} {x : Float} {count : Int} {v : Value}
    (h : repetition s x count = .ok v) : v.Plain := by
  simp only [repetition] at h
  split at h
  · cases h
    exact .text _
  split at h
  · cases h
  · cases h
    exact .text _

theorem plain_fraction {s : String} {divisor : Int} {v : Value}
    (h : fraction s divisor = .ok v) : v.Plain := by
  simp only [fraction] at h
  split at h
  · cases h
  · cases h
    exact .text _

theorem plain_withFinite {x : Float} {part : Option Int} {f : Int → Except Cause Value}
    {v : Value} (hf : ∀ n, f n = .ok v → v.Plain) (h : withFinite x part f = .ok v) : v.Plain := by
  cases part with
  | none => cases h
  | some n => exact hf n h

theorem plain_numbers? {k : Kind} {x y : Float} {v : Value} (h : numbers? k x y = some v) :
    v.Plain := by
  unfold numbers? at h
  split at h
  case h_5 =>
    obtain ⟨b, -, rfl⟩ := Option.map_eq_some_iff.1 h
    exact .number _
  all_goals
    cases h
    exact .number _

theorem plain_texts? {k : Kind} {s t : String} {v : Value} (h : texts? k s t = some v) :
    v.Plain := by
  unfold texts? at h
  split at h
  case h_3 =>
    obtain ⟨b, -, rfl⟩ := Option.map_eq_some_iff.1 h
    exact .number _
  all_goals
    cases h
    exact .text _

theorem plain_textNumber? {k : Kind} {s : String} {x : Float} {v : Value}
    (h : textNumber? k s x = some (.ok v)) : v.Plain := by
  unfold textNumber? at h
  split at h
  · cases h
    exact .text _
  · cases h
    exact .text _
  · exact plain_withFinite (fun _ => plain_repetition) (Option.some.inj h)
  · exact plain_withFinite (fun _ => plain_fraction) (Option.some.inj h)
  · cases h

/-- An operator gives a plain value, whatever it is applied to. -/
theorem plain_apply {k : Kind} {a b v : Value} (h : apply k a b = .ok v) : v.Plain := by
  unfold apply at h
  cases hm : meaning? k a b with
  | none =>
    rw [hm] at h
    cases h
  | some result =>
    rw [hm] at h
    obtain rfl : result = .ok v := h
    unfold meaning? at hm
    split at hm
    · obtain ⟨w, hw, heq⟩ := Option.map_eq_some_iff.1 hm
      cases heq
      exact plain_numbers? hw
    · obtain ⟨w, hw, heq⟩ := Option.map_eq_some_iff.1 hm
      cases heq
      exact plain_texts? hw
    · exact plain_textNumber? hm
    · split at hm
      · cases hm
        exact .text _
      · cases hm
    · cases hm

end Operation

/-! ## Evaluations -/

namespace Evaluation

variable {α β : Type} {sort : Scopes Value → Prop}

/-- From scopes of the given sort an evaluation leads to scopes of that sort, also where it fails,
and its result is as said. -/
def Keeps (sort : Scopes Value → Prop) (result : α → Prop) (x : Evaluation α) : Prop :=
  ∀ m : Memory, sort m.scopes →
    match x.run m with
    | .ok a m' => sort m'.scopes ∧ result a
    | .error _ m' => sort m'.scopes

namespace Keeps

variable {result : α → Prop} {result' : β → Prop}

theorem pure {a : α} (h : result a) : Keeps sort result (pure a) := fun _ hm => ⟨hm, h⟩

theorem throw (fault : Fault) : Keeps sort result (throw fault : Evaluation α) := fun _ hm => hm

theorem get : Keeps sort (fun m => sort m.scopes) (get : Evaluation Memory) := fun _ hm => ⟨hm, hm⟩

theorem modify {f : Memory → Memory} (h : ∀ m, sort m.scopes → sort (f m).scopes) :
    Keeps sort (fun _ => True) (modify f : Evaluation PUnit) := fun m hm => ⟨h m hm, trivial⟩

theorem bind {x : Evaluation α} {f : α → Evaluation β} (hx : Keeps sort result x)
    (hf : ∀ a, result a → Keeps sort result' (f a)) : Keeps sort result' (x >>= f) := by
  intro m hm
  have hfirst := hx m hm
  rw [EStateM.run_bind]
  cases hrun : x.run m with
  | ok a m' =>
    rw [hrun] at hfirst
    exact hf a hfirst.2 m' hfirst.1
  | error fault m' =>
    rw [hrun] at hfirst
    exact hfirst

end Keeps

/-- What an evaluation relies on that writes to the given names: scopes of the sort hold good values
only, and stay of that sort when a good value is written to one of the names. All that a program
computes is good. -/
structure Stable (names : String → Prop) (sort : Scopes Value → Prop) (good : Value → Prop) :
    Prop where
  plain : ∀ {v : Value}, v.Plain → good v
  found : ∀ {scopes : Scopes Value} {name : String} {v : Value}, sort scopes →
    scopes.get? name = some v → good v
  written : ∀ {scopes : Scopes Value} {name : String} {v : Value}, sort scopes → names name →
    good v → sort (scopes.assign name v)

variable {names : String → Prop} {good : Value → Prop}

/-- If it does not matter what is written, only the writes themselves do. -/
theorem Stable.of_written (h : ∀ {scopes : Scopes Value} {name : String} {v : Value}, sort scopes →
    names name → sort (scopes.assign name v)) : Stable names sort fun _ => True where
  plain _ := trivial
  found _ _ := trivial
  written hscopes hname _ := h hscopes hname

variable (h : Stable names sort good)

include h

theorem literal_keeps (t : Token) : Keeps sort good (literal t) := by
  unfold literal
  split
  · cases Numeral.value? t.lexeme with
    | some x => exact .pure (h.plain (.number x))
    | none => exact .throw _
  · exact .pure (h.plain (.text _))
  · exact .pure (h.plain (.number _))
  · exact .pure (h.plain (.number _))
  · exact .pure (h.plain .null)
  · refine .bind .get fun m hm => ?_
    cases hfound : m.scopes.get? t.lexeme with
    | some v => exact .pure (h.found hm hfound)
    | none => exact .throw _
  · exact .throw _

theorem prefixed_keeps (op : Token) (v : Value) : Keeps sort good (prefixed op v) := by
  cases v with
  | number x =>
    simp only [prefixed]
    split
    · exact .pure (h.plain (.number _))
    · exact .pure (h.plain (.number _))
    · exact .throw _
  | null | text | failure | foreign => exact .throw _

theorem operation_keeps (op : Token) (a b : Value) : Keeps sort good (operation op a b) := by
  unfold operation
  cases happly : Operation.apply op.kind a b with
  | ok v => exact .pure (h.plain (Operation.plain_apply happly))
  | error cause => exact .throw _

theorem assign_keeps {name : String} (hname : names name) {v : Value} (hv : good v) :
    Keeps sort (fun _ => True) (assign name v) :=
  .modify fun _ hm => h.written hm hname hv

/-- An evaluation keeps what writes to the targets of its tree keep. -/
theorem evaluate_keeps : ∀ (levels : Nat) (e : Node), (∀ name ∈ e.targets, names name) →
    Keeps sort good (evaluate levels e)
  | 0, _, _ => by
    rw [evaluate]
    exact .throw _
  | _ + 1, .literal t, _ => literal_keeps h t
  | levels + 1, .grouping e, hnames => evaluate_keeps levels e hnames
  | levels + 1, .unary op e, hnames =>
    .bind (evaluate_keeps levels e hnames) fun v _ => prefixed_keeps h op v
  | levels + 1, .binary l op r, hnames => by
    have hl := evaluate_keeps levels l fun name hname =>
      hnames name (List.mem_append_left _ (List.mem_append_right _ hname))
    have hr := fun levels => evaluate_keeps levels r fun name hname =>
      hnames name (List.mem_append_right _ hname)
    rw [evaluate]
    split
    · next hequal =>
      cases htarget : target? l with
      | none => exact .throw _
      | some name =>
        have hname : names name := by
          refine hnames name (List.mem_append_left _ (List.mem_append_left _ ?_))
          rw [if_pos hequal, htarget]
          exact List.mem_singleton.2 rfl
        exact .bind (hr _) fun v hv => .bind (assign_keeps h hname hv) fun _ _ => .pure hv
    · refine .bind hl fun left _ => ?_
      split
      · exact .bind (hr levels) fun right _ => .pure (h.plain (.number _))
      · exact .pure (h.plain (.number _))
    · refine .bind hl fun left _ => ?_
      split
      · exact .pure (h.plain (.number _))
      · exact .bind (hr levels) fun right _ => .pure (h.plain (.number _))
    · exact .bind hl fun left _ => .bind (hr levels) fun right _ => operation_keeps h op left right
  | _ + 1, .expression _, _ => .throw _
  | _ + 1, .print _, _ => .throw _
  | _ + 1, .program _, _ => .throw _
termination_by structural _ e => e

end Evaluation

/-! ## Runs -/

namespace Run

open Evaluation (Keeps)

/-- What statements rely on that write to the given names, and to the name of the latest value. -/
structure Stable (names : String → Prop) (sort : Scopes Value → Prop) (good : Value → Prop) : Prop
    extends Evaluation.Stable names sort good where
  last : ∀ {scopes : Scopes Value} {v : Value}, sort scopes → good v →
    sort (scopes.defineGlobal lastValue v)

theorem scopes_statement (detail : Nat) (s : Node) (scopes : Scopes Value) :
    (statement detail s scopes).scopes = (told s (attempt detail s scopes)).scopes := by
  rw [← withoutNotes_statement]
  rfl

namespace Stable

variable {names : String → Prop} {sort : Scopes Value → Prop} {good : Value → Prop}
  (h : Stable names sort good)

include h

theorem execute {s : Node} (hnames : ∀ name ∈ s.targets, names name) :
    Keeps sort (fun _ => True) (execute s) := by
  cases s with
  | expression e =>
    exact .bind (Evaluation.evaluate_keeps h.toStable _ e hnames) fun v hv =>
      .bind (.modify fun m hm => h.last hm hv) fun _ _ => .pure trivial
  | print e =>
    exact .bind (Evaluation.evaluate_keeps h.toStable _ e hnames) fun v _ => .pure trivial
  | _ => exact .throw _

theorem performed {s : Node} (hnames : ∀ name ∈ s.targets, names name) {scopes : Scopes Value}
    (hscopes : sort scopes) : sort (told s (performed s scopes)).scopes := by
  have hexecute := h.execute hnames { scopes } hscopes
  unfold Run.performed
  cases hrun : (Run.execute s).run { scopes } with
  | ok result m =>
    rw [hrun] at hexecute
    exact hexecute.1
  | error fault m =>
    rw [hrun] at hexecute
    simp only [told]
    split <;> exact hexecute

theorem statement {s : Node} (hnames : ∀ name ∈ s.targets, names name) (detail : Nat)
    {scopes : Scopes Value} (hscopes : sort scopes) : sort (statement detail s scopes).scopes := by
  rw [scopes_statement]
  unfold attempt
  split
  · split
    · exact h.performed hnames hscopes
    · simp only [told]
      split <;> exact hscopes
    · exact hscopes
  · exact h.performed hnames hscopes

/-- Statements keep what writes to their targets and to the latest value keep. -/
theorem statements {nodes : List Node} (hnames : ∀ s ∈ nodes, ∀ name ∈ s.targets, names name)
    (detail : Nat) {scopes : Scopes Value} (hscopes : sort scopes) (v : Value) :
    sort (statements detail nodes scopes v).scopes := by
  induction nodes generalizing scopes v with
  | nil => exact hscopes
  | cons s nodes ih =>
    have hfirst := h.statement (hnames s List.mem_cons_self) detail hscopes
    simp only [Run.statements, Effect.andThen]
    split
    · exact hfirst
    · exact ih (fun s' hs' => hnames s' (List.mem_cons_of_mem _ hs')) hfirst _

end Stable

/-! ## Names stay bound -/

/-- A bound global name stays bound. -/
theorem stable_contains (name : String) :
    Stable (fun _ => True) (fun scopes => scopes.globals.contains name = true) (fun _ => True) where
  plain _ := trivial
  found _ _ := trivial
  written {scopes target v} hscopes _ _ := by
    unfold Scopes.assign
    split
    · exact hscopes
    · simp only [Scopes.defineGlobal, Frame.contains, Frame.get?_insert] at hscopes ⊢
      split
      · rfl
      · exact hscopes
  last {scopes v} hscopes _ := by
    simp only [Scopes.defineGlobal, Frame.contains, Frame.get?_insert] at hscopes ⊢
    split
    · rfl
    · exact hscopes

/-- A statement that is run in these scopes succeeds: it ends with a value, and nothing is said
about it. -/
def Succeeds (detail : Nat) (node : Node) (scopes : Scopes Value) : Prop :=
  (∃ v, (statement detail node scopes).outcome = .ok v) ∧
    (statement detail node scopes).diagnostics = []

/-- What succeeds has been executed. -/
theorem Succeeds.exists_performed {detail : Nat} {node : Node} {scopes : Scopes Value}
    (h : Succeeds detail node scopes) :
    ∃ result scopes', attempt detail node scopes = .ok result scopes' ∧
      performed node scopes = .ok result scopes' := by
  obtain ⟨⟨v, houtcome⟩, hquiet⟩ := h
  have htold := withoutNotes_statement detail node scopes
  cases hattempt : attempt detail node scopes with
  | ok result scopes' =>
    refine ⟨result, scopes', rfl, ?_⟩
    unfold attempt at hattempt
    split at hattempt
    · split at hattempt
      · exact hattempt
      · cases hattempt
      · cases hattempt
    · exact hattempt
  | error fault scopes' =>
    -- A fault is told of in a diagnostic or leaves no value.
    rw [hattempt] at htold
    simp only [told] at htold
    split at htold
    · have hdiagnostics := congrArg Effect.diagnostics htold
      exact absurd (hquiet.symm.trans hdiagnostics) (by simp)
    · have hreason := congrArg Effect.outcome htold
      cases houtcome.symm.trans hreason

/-- An expression statement that succeeds binds the latest value. -/
theorem Succeeds.contains_lastValue {detail : Nat} {e : Node} {scopes : Scopes Value}
    (h : Succeeds detail (.expression e) scopes) :
    (statement detail (.expression e) scopes).scopes.globals.contains lastValue = true := by
  obtain ⟨result, scopes', hattempt, hperformed⟩ := h.exists_performed
  rw [scopes_statement, hattempt]
  simp only [told]
  simp only [performed, execute, EStateM.run_bind] at hperformed
  cases hrun : (Evaluation.evaluate Node.depthLimit e).run { scopes } with
  | error fault m =>
    rw [hrun] at hperformed
    cases hperformed
  | ok v m =>
    rw [hrun] at hperformed
    cases hperformed
    simp [Scopes.defineGlobal, Frame.contains]

end Run

end Scriptlet
