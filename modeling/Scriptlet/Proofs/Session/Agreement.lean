import Scriptlet.Proofs.FrontEnd.Agreement
import Scriptlet.Proofs.Running.Relabelling
import Scriptlet.Proofs.Session.Answers

/-!
# Valid programs run alike

The front ends agree on valid programs up to the lines of texts (`Strict.ofSource_of_ofScan`).
Nothing that a program does depends on the line of a text, and no diagnostic shows it, unless a
statement is too deep and starts with one (`Run.statements_texts`); nor does it depend on the detail
of the log (`Run.statements_of_detail_le`). So sessions that differ in their front end give the same
answers (`Session.run_grammar_eq_run_descent`).
-/

namespace Scriptlet

theorem Token.moves_textOnLastLine : Token.Moves Token.textOnLastLine :=
  ⟨kind_textOnLastLine, lexeme_textOnLastLine⟩

namespace Session

/-- What a valid program does, whichever front end read it and whatever its log is to show. -/
theorem withoutNotes_effect {s t : Session} (hs : s.frontEnd = .descent)
    (ht : t.frontEnd = .grammar) (hscopes : s.scopes = t.scopes) {source : String}
    (hvalid : (FrontEnd.descent.parse source).diagnostics = [])
    (hshallow : Run.Shallow ({ s with detail := max s.detail t.detail }.effect source)) :
    (FrontEnd.grammar.parse source).diagnostics = [] ∧
      (s.effect source).withoutNotes = (t.effect source).withoutNotes := by
  obtain ⟨statements, hparse, heq, -⟩ := FrontEnd.Strict.ofSource_of_ofScan hvalid
  have hgrammar : FrontEnd.grammar.parse source = ⟨statements, []⟩ := hparse
  have hdescent : (FrontEnd.descent.parse source).statements =
      statements.map (Node.mapTokens _) := heq
  have hrunnable : ∀ n ∈ statements, n.Runnable := fun n hn =>
    FrontEnd.runnable_of_mem_parse (hgrammar ▸ hn : n ∈ (FrontEnd.grammar.parse source).statements)
  have hmoved : ∀ n ∈ statements.map (Node.mapTokens _), n.Runnable :=
    List.forall_mem_map.2 fun n hn => (hrunnable n hn).mapTokens Token.moves_textOnLastLine
  simp only [effect, Run.program, hs, ht, hdescent, hgrammar, ← hscopes, true_and] at hshallow ⊢
  -- With the greater of the details no text moves anything, and the lesser one changes nothing.
  have htexts := Run.statements_texts Token.moves_textOnLastLine (fun u hu => if_neg hu) hrunnable
    hshallow
  have hdescending := Run.statements_of_detail_le hmoved (Nat.le_max_left ..) hshallow
  have hshallow' : Run.Shallow (Run.statements (max s.detail t.detail) statements s.scopes .null) :=
    fun d hd => hshallow d ((congrArg Effect.diagnostics htexts).symm ▸ hd)
  have hreading := Run.statements_of_detail_le hrunnable (Nat.le_max_right ..) hshallow'
  rw [← hdescending, htexts, hreading]

/-- **The front ends are interchangeable on valid programs.** In the same scopes a source text that
the descent front end takes, and of which no statement is too deep for either session, has the same
value, leaves the same scopes, prints the same lines and is told about in the same words at the same
places. -/
theorem run_grammar_eq_run_descent {s t : Session} (hs : s.frontEnd = .descent)
    (ht : t.frontEnd = .grammar) (hscopes : s.scopes = t.scopes) {source : String}
    (hvalid : (FrontEnd.descent.parse source).diagnostics = [])
    (hdeep : ∀ d ∈ ({ s with detail := max s.detail t.detail }.run source).session.diagnostics,
      d.message ≠ Run.tooDeepMessage) :
    (t.run source).outcome = (s.run source).outcome ∧
      (t.run source).session.scopes = (s.run source).session.scopes ∧
      (t.run source).printed = (s.run source).printed ∧
      (t.run source).session.diagnostics = (s.run source).session.diagnostics ∧
      (t.run source).complaints = (s.run source).complaints := by
  simp only [run_diagnostics, hs, hvalid, List.nil_append] at hdeep
  obtain ⟨hgrammar, heffect⟩ := withoutNotes_effect hs ht hscopes hvalid (hs ▸ hdeep)
  obtain ⟨hscopes', hprinted, -, hdiagnostics, houtcome⟩ := Effect.mk.inj heffect
  have hall : (t.run source).session.diagnostics = (s.run source).session.diagnostics := by
    simp only [run_diagnostics, hs, ht, hvalid, hgrammar, hdiagnostics]
  simp only [run_outcome, run_scopes, run_printed, run_complaints, hscopes', hprinted, houtcome,
    hall, and_self]

/-- A text over two lines is printed, and one before an unknown name does not move its diagnostic.
-/
theorem run_grammar_text_over_lines :
    let s : Session := { frontEnd := .descent, detail := 0 }
    let t : Session := { frontEnd := .grammar, detail := 2 }
    let source := "print \"a\nb\"; y = \"c\n\" + x"
    (s.run source).printed = ["a\nb"] ∧
      (s.run source).session.diagnostics.map (·.line) = [3] ∧
      (t.run source).session.scopes = (s.run source).session.scopes ∧
      (t.run source).printed = (s.run source).printed ∧
      (t.run source).session.diagnostics = (s.run source).session.diagnostics := by
  intro s t source
  obtain ⟨-, hscopes, hprinted, hdiagnostics, -⟩ := @run_grammar_eq_run_descent s t rfl rfl rfl
    source (by decide +kernel) (by decide +kernel)
  exact ⟨by decide +kernel, by decide +kernel, hscopes, hprinted, hdiagnostics⟩

end Session

end Scriptlet
