import Scriptlet.Proofs.FrontEnd.Composition
import Scriptlet.Proofs.Running.Relabelling
import Scriptlet.Proofs.Session.Answers

/-!
# Running a source text in parts

A source text that goes on after a line break has the statements of its first part, followed by
those of the rest some lines later (`FrontEnd.parse_descent_append_break`). Running statements one
list after the other is running them as one list (`Run.statements_append`), and statements some
lines later do the same and are told about as much later (`Run.statements_later`). So it makes no
difference whether a script is run whole or part by part, whatever is wrong with the parts
(`Session.run_whole_eq_run_parts`).
-/

namespace Scriptlet

namespace Run

/-- Statements that follow others, some lines later, after those have ended. -/
theorem program_append_later {nodes others : List Node} (hnodes : ∀ s ∈ nodes, s.Runnable)
    (hothers : ∀ s ∈ others, s.Runnable) (k : Int) (detail : Nat) (scopes : Scopes Value) :
    let first := program detail nodes scopes
    let second := program detail others first.scopes
    let whole := program detail (nodes ++ others.map (Node.mapTokens (Token.later k))) scopes
    whole.scopes = second.scopes ∧ whole.printed = first.printed ++ second.printed ∧
      whole.diagnostics = first.diagnostics ++ second.diagnostics.map (Diagnostic.later k) := by
  intro first second whole
  obtain ⟨v, hv⟩ := (Ends.of_runnable hnodes detail scopes .null).finishes
  have hlater := statements_later hothers k detail first.scopes .null v
  have hwhole : whole = first.andThen
      (statements detail (others.map (Node.mapTokens (Token.later k)))) :=
    statements_append ..
  have houtcome : first.outcome = .ok v := hv
  simp only [hwhole, Effect.andThen, houtcome]
  exact ⟨hlater.scopes, by rw [hlater.printed]; rfl, by rw [hlater.diagnostics]; rfl⟩

end Run

namespace Session

/-- The diagnostics of the latest run that came up while running. -/
def runtimeDiagnostics (s : Session) : List Diagnostic :=
  s.diagnostics.filter (·.stage == .runtime)

theorem runtimeDiagnostics_run (s : Session) (source : String) :
    (s.run source).session.runtimeDiagnostics = (s.effect source).diagnostics := by
  have hreading : (s.frontEnd.parse source).diagnostics.filter (·.stage == .runtime) = [] := by
    refine List.filter_eq_nil_iff.2 fun d hd => ?_
    rw [(FrontEnd.ofReading_of_mem_parse hd).stage]
    decide
  have hrunning : (s.effect source).diagnostics.filter (·.stage == .runtime) =
      (s.effect source).diagnostics := by
    refine List.filter_eq_self.2 fun d hd => ?_
    rw [((ends_effect s source).ofRunning hd).stage]
    rfl
  simp only [runtimeDiagnostics, run_diagnostics, List.filter_append, hreading, hrunning,
    List.nil_append]

/-- **A script can be run whole or part by part.** If every text in the first part closes, running
both parts with a line break between them leaves the same scopes and prints the same lines as
running one after the other, and the diagnostics of the run are those of the first part followed by
those of the second, as many lines later. -/
theorem run_whole_eq_run_parts (s : Session) (hs : s.frontEnd = .descent) (source more : String)
    (h : ∀ d ∈ (Scan.ofSource source).diagnostics, d.message ≠ "Unterminated string.") :
    let whole := s.run (source ++ "\n" ++ more)
    let first := s.run source
    let second := first.session.run more
    whole.session.scopes = second.session.scopes ∧
      whole.printed = first.printed ++ second.printed ∧
      whole.session.runtimeDiagnostics = first.session.runtimeDiagnostics ++
        second.session.runtimeDiagnostics.map
          (Diagnostic.later (1 + Scan.lineBreaks source.toList)) := by
  intro whole first second
  have hparts := Run.program_append_later
    (fun n (hn : n ∈ (FrontEnd.descent.parse source).statements) =>
      FrontEnd.runnable_of_mem_parse hn)
    (fun n (hn : n ∈ (FrontEnd.descent.parse more).statements) =>
      FrontEnd.runnable_of_mem_parse hn)
    (Scan.lineBreaks source.toList + 1) s.detail s.scopes
  rw [← FrontEnd.parse_descent_append_break h more] at hparts
  simp only [whole, first, second, run_scopes, run_printed, runtimeDiagnostics_run, effect,
    run_frontEnd, run_detail, hs]
  rwa [Int.add_comm 1]

/-- An unknown name, an open parenthesis and a stray character stay with the first part. -/
theorem run_whole_eq_run_parts_mistakes :
    let s : Session := { frontEnd := .descent, detail := 0 }
    let whole := s.run "print \"a\"; y\n(1 ?\nprint \"b\"\nx"
    let first := s.run "print \"a\"; y\n(1 ?"
    let second := first.session.run "print \"b\"\nx"
    first.printed = ["a"] ∧ second.printed = ["b"] ∧
      first.session.runtimeDiagnostics.map (·.line) = [1] ∧
      second.session.runtimeDiagnostics.map (·.line) = [2] ∧
      whole.printed = first.printed ++ second.printed ∧
      whole.session.runtimeDiagnostics = first.session.runtimeDiagnostics ++
        second.session.runtimeDiagnostics.map (Diagnostic.later 2) := by
  intro s whole first second
  obtain ⟨-, hprinted, hdiagnostics⟩ := run_whole_eq_run_parts s rfl "print \"a\"; y\n(1 ?"
    "print \"b\"\nx" (by decide +kernel)
  exact ⟨by decide +kernel, by decide +kernel, by decide +kernel, by decide +kernel, hprinted,
    hdiagnostics⟩

end Session

end Scriptlet
