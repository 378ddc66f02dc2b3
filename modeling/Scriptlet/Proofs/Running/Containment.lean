import Scriptlet.Proofs.Running.Bindings

/-!
# A failing statement is contained

A tree without assignments is evaluated without a trace: there is nothing in it that could write to
the scopes (`Node.targets_eq_nil`), so they are left as they were, also where the evaluation fails
(`Evaluation.evaluate_keeps_scopes`). What a statement does beyond its evaluation, to print and to
bind the latest value, it does after it. So a statement without assignments that fails
(`Run.Fails`) adds one diagnostic to the effect of a run and nothing else
(`Run.Fails.exists_statement`).

The statements that follow start from its diagnostic as their value, which only shows if there are
none (`Run.statements_start`): they do what they would do without it.
-/

namespace Scriptlet

/-! ## Trees without assignments -/

namespace Node

/-- The operators that stand in a tree. -/
def operators : Node → List Token
  | literal _ => []
  | grouping e => operators e
  | unary op e => op :: operators e
  | binary l op r => operators l ++ op :: operators r
  | expression e => operators e
  | print e => operators e
  | program _ => []

/-- Where no operator assigns, nothing is assigned to. -/
theorem targets_eq_nil : ∀ {n : Node}, (∀ op ∈ n.operators, op.kind ≠ .equal) → n.targets = []
  | literal _, _ => rfl
  | grouping e, h => targets_eq_nil (n := e) h
  | unary op e, h => targets_eq_nil (n := e) fun op' hop => h op' (List.mem_cons_of_mem _ hop)
  | binary l op r, h => by
    have hl : l.targets = [] := targets_eq_nil fun op' hop => h op' (List.mem_append_left _ hop)
    have hr : r.targets = [] := targets_eq_nil fun op' hop =>
      h op' (List.mem_append_right _ (List.mem_cons_of_mem _ hop))
    have hop : op.kind ≠ .equal := h op (List.mem_append_right _ List.mem_cons_self)
    rw [targets, if_neg hop, hl, hr]
    rfl
  | expression e, h => targets_eq_nil (n := e) h
  | print e, h => targets_eq_nil (n := e) h
  | program _, _ => rfl

end Node

namespace Evaluation

/-- An evaluation without targets leaves the scopes as they are. -/
theorem evaluate_keeps_scopes {e : Node} (he : e.targets = []) (levels : Nat)
    (scopes : Scopes Value) : Keeps (· = scopes) (fun _ => True) (evaluate levels e) := by
  have hstable : Stable (fun _ => False) (· = scopes) fun _ => True :=
    .of_written fun _ hname => hname.elim
  refine evaluate_keeps hstable levels e fun name hname => ?_
  rw [he] at hname
  cases hname

/-- If nothing that follows it can fail, a fault comes from the evaluation itself. -/
theorem scopes_of_evaluate_bind {α : Type} {e : Node} (he : e.targets = []) {levels : Nat}
    {f : Value → Evaluation α} (hf : ∀ v m, ∃ a m', (f v).run m = .ok a m') {m m' : Memory}
    {fault : Fault} (h : (evaluate levels e >>= f).run m = .error fault m') :
    m'.scopes = m.scopes := by
  have hkeeps := evaluate_keeps_scopes he levels m.scopes m rfl
  rw [EStateM.run_bind] at h
  cases hrun : (evaluate levels e).run m with
  | ok v middle =>
    rw [hrun] at h
    obtain ⟨a, m'', hok⟩ := hf v middle
    cases hok.symm.trans h
  | error fault' middle =>
    rw [hrun] at h hkeeps
    cases h
    exact hkeeps

end Evaluation

namespace Run

variable {detail : Nat} {s : Node} {scopes scopes' : Scopes Value}

/-! ## One statement -/

/-- A statement that fails has not come to its own writing. -/
theorem scopes_of_performed (hs : s.targets = []) {fault : Fault}
    (h : performed s scopes = .error fault scopes') : scopes' = scopes := by
  unfold performed at h
  cases hrun : (execute s).run { scopes } with
  | ok result m =>
    rw [hrun] at h
    cases h
  | error fault' m =>
    rw [hrun] at h
    cases h
    cases s with
    | expression e =>
      exact Evaluation.scopes_of_evaluate_bind (e := e) hs (fun _ _ => ⟨_, _, rfl⟩) hrun
    | print e =>
      exact Evaluation.scopes_of_evaluate_bind (e := e) hs (fun _ _ => ⟨_, _, rfl⟩) hrun
    | literal | grouping | unary | binary | program =>
      cases hrun
      rfl

theorem scopes_of_attempt (hs : s.targets = []) {fault : Fault}
    (h : attempt detail s scopes = .error fault scopes') : scopes' = scopes := by
  unfold attempt at h
  split at h
  · split at h
    · exact scopes_of_performed hs h
    · cases h
      rfl
    · cases h
      rfl
  · exact scopes_of_performed hs h

theorem stage_diagnose {fault : Fault} {d : Diagnostic} (h : diagnose s fault = .ok d) :
    d.stage = .runtime := by
  cases fault with
  | failed t cause =>
    cases h
    rfl
  | tooDeep =>
    simp only [diagnose] at h
    split at h
    · cases h
      rfl
    · cases h
  | malformed reason => cases h

/-- A statement that is run in these scopes fails: it ends in a fault that a diagnostic tells of. -/
def Fails (detail : Nat) (s : Node) (scopes : Scopes Value) : Prop :=
  ∃ fault scopes' d, attempt detail s scopes = .error fault scopes' ∧ diagnose s fault = .ok d

/-- A failing statement without targets does nothing but report, and its value is the report. -/
theorem Fails.exists_statement (h : Fails detail s scopes) (hs : s.targets = []) :
    ∃ d : Diagnostic, d.stage = .runtime ∧ (statement detail s scopes).withoutNotes =
      { scopes, diagnostics := [d], outcome := .ok (.failure d) } := by
  obtain ⟨fault, scopes', d, hattempt, hdiagnose⟩ := h
  obtain rfl := scopes_of_attempt hs hattempt
  refine ⟨d, stage_diagnose hdiagnose, ?_⟩
  rw [withoutNotes_statement, hattempt]
  simp only [told, hdiagnose]

/-! ## Whole runs -/

/-- The value that statements start from shows in their effect only if there are none. -/
theorem statements_start (detail : Nat) (nodes : List Node) (scopes : Scopes Value) (v w : Value) :
    let e := statements detail nodes scopes v
    let e' := statements detail nodes scopes w
    e.printed = e'.printed ∧ e.scopes = e'.scopes ∧ e.diagnostics = e'.diagnostics ∧
      (nodes ≠ [] → e.outcome = e'.outcome) := by
  cases nodes with
  | nil => exact ⟨rfl, rfl, rfl, fun h => absurd rfl h⟩
  | cons node rest => exact ⟨rfl, rfl, rfl, fun _ => rfl⟩

/-- Before other statements, a failing statement without targets adds its report and nothing
else. -/
theorem Fails.exists_statements (h : Fails detail s scopes) (hs : s.targets = []) (rest : List Node)
    (v w : Value) :
    let e := statements detail (s :: rest) scopes v
    let e' := statements detail rest scopes w
    e.printed = e'.printed ∧ e.scopes = e'.scopes ∧
      (∃ d : Diagnostic, d.stage = .runtime ∧ e.diagnostics = d :: e'.diagnostics) ∧
      (rest ≠ [] → e.outcome = e'.outcome) := by
  intro e e'
  obtain ⟨d, hstage, hstatement⟩ := h.exists_statement hs
  have he : e.withoutNotes =
      { (statements detail rest scopes (.failure d)).withoutNotes with
        diagnostics := d :: (statements detail rest scopes (.failure d)).diagnostics } := by
    simp only [e, statements]
    rw [Effect.withoutNotes_andThen, hstatement]
    rfl
  obtain ⟨hprinted, hscopes, hdiagnostics, houtcome⟩ :=
    statements_start detail rest scopes (.failure d) w
  refine ⟨(congrArg Effect.printed he).trans hprinted, (congrArg Effect.scopes he).trans hscopes,
    ⟨d, hstage, ?_⟩, fun hrest => (congrArg Effect.outcome he).trans (houtcome hrest)⟩
  rw [← hdiagnostics]
  exact congrArg Effect.diagnostics he

/-- **A failing statement is contained.** Let a statement without assignments fail in the scopes
that the statements before it lead to. The whole program prints what it prints without this
statement, and leaves the same scopes, the latest value among them; its diagnostics are those of
the statements before, one of its own, which is a runtime error, and those of the statements after,
which are told of without it too; and if there are statements after it, it comes to the same
value. -/
theorem program_contains_failure (detail : Nat) (before after : List Node) (s : Node)
    (scopes : Scopes Value) (hoperators : ∀ op ∈ s.operators, op.kind ≠ .equal)
    (hbefore : ∃ v, (program detail before scopes).outcome = .ok v)
    (hfails : Fails detail s (program detail before scopes).scopes) :
    let first := program detail before scopes
    let second := program detail after first.scopes
    let whole := program detail (before ++ [s] ++ after) scopes
    let without := program detail (before ++ after) scopes
    whole.printed = without.printed ∧ whole.scopes = without.scopes ∧
      without.diagnostics = first.diagnostics ++ second.diagnostics ∧
      (∃ d : Diagnostic, d.stage = .runtime ∧
        whole.diagnostics = first.diagnostics ++ d :: second.diagnostics) ∧
      (after ≠ [] → whole.outcome = without.outcome) := by
  intro first second whole without
  obtain ⟨v, hv⟩ := hbefore
  have hs := Node.targets_eq_nil hoperators
  have hwhole : whole = first.andThen (statements detail (s :: after)) := by
    simp only [whole, List.append_assoc]
    exact statements_append detail before (s :: after) scopes .null
  have hwithout : without = first.andThen (statements detail after) :=
    statements_append detail before after scopes .null
  obtain ⟨hprinted, hscopes, ⟨d, hstage, hdiagnostics⟩, houtcome⟩ :=
    hfails.exists_statements hs after v v
  obtain ⟨-, -, hsecond, -⟩ := statements_start detail after first.scopes v .null
  rw [hwhole, hwithout]
  simp only [Effect.andThen, first, hv]
  refine ⟨congrArg _ hprinted, hscopes, congrArg _ hsecond, ⟨d, hstage, ?_⟩, houtcome⟩
  rw [hdiagnostics]
  exact congrArg (fun later => _ ++ d :: later) hsecond

/-- After `x = "a"`, the statement `print x + y` fails at a name without a value; `x` follows. -/
theorem program_contains_failure_unknown_name :
    let name (text : String) (line : Int) : Node := .literal ⟨.identifier, text, line⟩
    let before : List Node :=
      [.expression (.binary (name "x" 1) ⟨.equal, "=", 1⟩ (.literal ⟨.string, "\"a\"", 1⟩))]
    let s := Node.print (.binary (name "x" 2) ⟨.plus, "+", 2⟩ (name "y" 2))
    let after : List Node := [.print (name "x" 3), .expression (name "x" 3)]
    let run := fun nodes => program 2 nodes Scopes.empty
    let whole := run (before ++ [s] ++ after)
    let without := run (before ++ after)
    Fails 2 s (run before).scopes ∧ whole.printed = without.printed ∧
      whole.scopes = without.scopes ∧ whole.outcome = without.outcome ∧
      (∃ d : Diagnostic, d.stage = .runtime ∧ whole.diagnostics = [d]) ∧
      without.printed = ["a"] ∧ without.outcome = .ok (.text "a") := by
  intro name before s after run whole without
  have hfails : Fails 2 s (run before).scopes := ⟨_, _, _, rfl, rfl⟩
  obtain ⟨hprinted, hscopes, -, hreport, houtcome⟩ :=
    program_contains_failure 2 before after s Scopes.empty (by decide) ⟨_, rfl⟩ hfails
  exact ⟨hfails, hprinted, hscopes, houtcome (List.cons_ne_nil _ _), hreport, rfl, rfl⟩

end Run

end Scriptlet
