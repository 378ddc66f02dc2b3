import Scriptlet.Proofs.FrontEnd.Names
import Scriptlet.Proofs.Running.Bindings
import Scriptlet.Proofs.Session.Answers

/-!
# What a session binds

A session that has only run source texts has one frame, and what it binds there are names of its
front end, to null, numbers and texts (`Scopes.Tidy`). Such scopes are stable under everything that
statements write (`Run.stable_tidy`): the targets of a statement are names of the front end that
built it, and so is the name of the latest value. A diagnostic is the value of a statement that
failed, but no expression has it as its value, so it is never bound.

A name that is bound stays bound, since statements only write (`Run.stable_contains`). Once an
expression statement has succeeded, the name of the latest value is therefore bound for good.
-/

namespace Scriptlet

/-- The scopes have one frame, which binds names of the given sort to plain values. -/
structure Scopes.Tidy (names : String → Prop) (scopes : Scopes Value) : Prop where
  alone : scopes.inner = []
  named : ∀ {name : String} {v : Value}, scopes.globals.get? name = some v → names name
  plain : ∀ {name : String} {v : Value}, scopes.globals.get? name = some v → v.Plain

namespace Scopes.Tidy

variable {names : String → Prop} {scopes : Scopes Value}

theorem empty : Tidy names .empty where
  alone := rfl
  named h := by cases h
  plain h := by cases h

theorem defineGlobal (h : scopes.Tidy names) {name : String} (hname : names name) {v : Value}
    (hv : v.Plain) : (scopes.defineGlobal name v).Tidy names := by
  have hentry : ∀ {other : String} {w : Value},
      (scopes.defineGlobal name v).globals.get? other = some w → names other ∧ w.Plain := by
    intro other w hother
    simp only [Scopes.defineGlobal, Frame.get?_insert] at hother
    split at hother
    · next heq =>
      cases hother
      exact ⟨heq ▸ hname, hv⟩
    · exact ⟨h.named hother, h.plain hother⟩
  exact ⟨h.alone, fun hother => (hentry hother).1, fun hother => (hentry hother).2⟩

theorem assign (h : scopes.Tidy names) {name : String} (hname : names name) {v : Value}
    (hv : v.Plain) : (scopes.assign name v).Tidy names := by
  simp only [Scopes.assign, h.alone, assignInner]
  exact h.defineGlobal hname hv

theorem plain_of_get? (h : scopes.Tidy names) {name : String} {v : Value}
    (hfound : scopes.get? name = some v) : v.Plain := by
  simp only [Scopes.get?, h.alone, List.findSome?_nil, Option.none_or] at hfound
  exact h.plain hfound

end Scopes.Tidy

namespace Run

theorem stable_tidy {names : String → Prop} (hlast : names lastValue) :
    Stable names (Scopes.Tidy names) Value.Plain where
  plain hv := hv
  found hscopes hfound := hscopes.plain_of_get? hfound
  written hscopes hname hv := hscopes.assign hname hv
  last hscopes hv := hscopes.defineGlobal hlast hv

/-- Statements of which some expression statement succeeds bind the latest value. -/
theorem contains_lastValue_of_succeeds {detail : Nat} {before rest : List Node} {e : Node}
    {scopes : Scopes Value} (hbefore : ∀ n ∈ before, n.Runnable)
    (h : Succeeds detail (.expression e) (program detail before scopes).scopes) :
    (program detail (before ++ .expression e :: rest) scopes).scopes.globals.contains lastValue =
      true := by
  obtain ⟨v, hv⟩ := (Ends.of_runnable hbefore detail scopes .null).finishes
  obtain ⟨w, hw⟩ := h.1
  have hbound := h.contains_lastValue
  simp only [program] at hw hbound ⊢
  rw [statements_append]
  simp only [Effect.andThen, hv, statements, hw]
  exact (stable_contains lastValue).statements (fun _ _ _ _ => trivial) detail hbound w

end Run

namespace Session

/-- In this session some expression statement of the source text succeeds, in the scopes that the
statements before it leave. -/
def ExpressionSucceeds (s : Session) (source : String) : Prop :=
  ∃ before e rest, (s.frontEnd.parse source).statements = before ++ .expression e :: rest ∧
    Run.Succeeds s.detail (.expression e) (Run.program s.detail before s.scopes).scopes

section

variable {names : String → Prop} {sort : Scopes Value → Prop} {good : Value → Prop}
  (h : Run.Stable names sort good) {s : Session}
  (hnames : ∀ {name}, s.frontEnd.IsName name → names name)

include h hnames

theorem stable_run (hscopes : sort s.scopes) (source : String) :
    sort (s.run source).session.scopes := by
  rw [run_scopes]
  refine h.statements ?_ s.detail hscopes .null
  intro n hn name hname
  obtain ⟨t, ht, hkind, rfl⟩ := Node.exists_token_of_mem_targets hname
  exact hnames (FrontEnd.names_of_mem_parse hn ht hkind)

/-- What statements keep, a session keeps over all its runs. -/
theorem stable_after (hscopes : sort s.scopes) (sources : List String) :
    sort (s.after sources).scopes := by
  induction sources generalizing s with
  | nil => exact hscopes
  | cons source rest ih =>
    refine ih ?_ (stable_run h hnames hscopes source)
    rwa [run_frontEnd]

end

theorem contains_after {s : Session} {name : String}
    (h : s.scopes.globals.contains name = true) (sources : List String) :
    (s.after sources).scopes.globals.contains name = true :=
  stable_after (Run.stable_contains name) (fun _ => trivial) h sources

theorem contains_lastValue_run {s : Session} {source : String} (h : s.ExpressionSucceeds source) :
    (s.run source).session.scopes.globals.contains Run.lastValue = true := by
  obtain ⟨before, e, rest, hparse, hsucceeds⟩ := h
  rw [run_scopes, effect, hparse]
  refine Run.contains_lastValue_of_succeeds (fun n hn => ?_) hsucceeds
  have hmem : n ∈ (s.frontEnd.parse source).statements := by
    rw [hparse]
    exact List.mem_append_left _ hn
  exact FrontEnd.runnable_of_mem_parse hmem

/-- A source text of one expression statement succeeds if nothing is said about it. -/
theorem expressionSucceeds_of_quiet {s : Session} {source : String}
    (hform : (s.frontEnd.parse source).statements.map Node.formName = ["ExpressionStmt"])
    (hquiet : (s.effect source).diagnostics = []) : s.ExpressionSucceeds source := by
  obtain ⟨n, hparse, hn⟩ := List.map_eq_singleton_iff.1 hform
  obtain ⟨e, rfl⟩ : ∃ e, n = .expression e := by
    cases n with
    | expression e => exact ⟨e, rfl⟩
    | _ => simp [Node.formName] at hn
  obtain ⟨w, hw⟩ := (ends_effect s source).finishes
  refine ⟨[], e, [], hparse, ?_⟩
  simp only [effect, hparse, Run.program, Run.statements] at hw hquiet ⊢
  unfold Run.Succeeds
  generalize Run.statement s.detail (.expression e) s.scopes = st at hw hquiet ⊢
  rcases st with ⟨scopes, printed, notes, diagnostics, reason | v⟩
  · cases hw
  · exact ⟨⟨v, rfl⟩, by simpa [Effect.andThen] using hquiet⟩

/-- **What a session binds.** After any source texts, whatever went wrong in them, a fresh session
has one frame; the names in it are names of its front end and no words of the language, and are
bound to null, numbers and texts. No source text makes a bound name unbound, and from the first
expression statement that succeeds on the latest value is bound. -/
theorem after_binds (frontEnd : FrontEnd) (detail : Nat) (sources : List String) :
    let s := ({ frontEnd, detail } : Session).after sources
    s.scopes.depth = 1 ∧
      (∀ name v, s.scopes.globals.get? name = some v →
        frontEnd.isNameText name = true ∧ Kind.keyword? name = none ∧ v.Plain) ∧
      (∀ more name, s.scopes.globals.contains name = true →
        (s.after more).scopes.globals.contains name = true) ∧
      ∀ source more, s.ExpressionSucceeds source →
        ((s.run source).session.after more).scopes.globals.contains "_" = true := by
  intro s
  have htidy : s.scopes.Tidy frontEnd.IsName :=
    stable_after (Run.stable_tidy frontEnd.isName_lastValue) (fun hname => hname) .empty sources
  refine ⟨?_, ?_, ?_, ?_⟩
  · simp only [Scopes.depth, htidy.alone, List.length_nil]
  · intro name v hbound
    have hname := htidy.named hbound
    exact ⟨hname.shape, hname.free, htidy.plain hbound⟩
  · intro more name hbound
    exact contains_after hbound more
  · intro source more hsucceeds
    exact contains_after (contains_lastValue_run hsucceeds) more

/-- A statement that fails leaves what it assigned before it failed, and no diagnostic is bound. -/
theorem after_binds_partial_assignment :
    let fresh : Session := { frontEnd := .grammar, detail := 2 }
    let s := fresh.after ["a = null", "b = (c = \"t\") - a", "class = c"]
    s.scopes.globals.names = ["_", "a", "c"] ∧ s.scopes.depth = 1 ∧
      (∃ v, s.scopes.globals.get? "c" = some v ∧ v.Plain) ∧
      fresh.ExpressionSucceeds "a = null" ∧ s.scopes.globals.contains "_" = true := by
  intro fresh s
  obtain ⟨hdepth, hbound, -⟩ := after_binds .grammar 2
    ["a = null", "b = (c = \"t\") - a", "class = c"]
  obtain ⟨v, hv⟩ : ∃ v, s.scopes.globals.get? "c" = some v :=
    Option.isSome_iff_exists.1 (by decide +kernel)
  have hsucceeds : fresh.ExpressionSucceeds "a = null" :=
    expressionSucceeds_of_quiet (by decide +kernel) (by decide +kernel)
  exact ⟨by decide +kernel, hdepth, ⟨v, hv, (hbound "c" v hv).2.2⟩, hsucceeds,
    (after_binds .grammar 2 []).2.2.2 "a = null" _ hsucceeds⟩

end Session

end Scriptlet
