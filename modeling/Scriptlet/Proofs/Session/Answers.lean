import Scriptlet.Proofs.FrontEnd.Statements
import Scriptlet.Session

/-!
# What a session answers

A session that runs a source text reads it and runs what it read, so its answer is put together from
the two (`Session.run_eq`): the scopes and the printed lines are those of the statements, and the
diagnostics are those of the reading, all of them about the source text itself, followed by those of
the run. Since every front end builds statements that can be run, there is always a value.

What is left of a run for the next one is a session again, so nothing ever goes wrong with source
texts that are run one after another (`Session.answers_finish`).
-/

namespace Scriptlet

/-! ## Wordings -/

namespace Diagnostic

/-- The diagnostic has one of the wordings for trees that the grammar does not allow. -/
def isInternal (d : Diagnostic) : Bool :=
  d.message.startsWith "Unexpected literal " || d.message.startsWith "Unknown unary operator "

theorem isInternal_eq_false_iff {d : Diagnostic} :
    d.isInternal = false ↔
      ¬"Unexpected literal ".toList <+: d.message.toList ∧
        ¬"Unknown unary operator ".toList <+: d.message.toList := by
  simp [isInternal, String.startsWith_string_eq_false_iff]

/-- The diagnostic tells of a mistake in a source text. -/
structure OfReading (d : Diagnostic) : Prop where
  stage : d.stage = .compile
  notInternal : d.isInternal = false

/-- The diagnostic tells of a failure that a program can have. -/
structure OfRunning (d : Diagnostic) : Prop where
  stage : d.stage = .runtime
  notInternal : d.isInternal = false

end Diagnostic

open Diagnostic (OfReading OfRunning)

namespace Scan

theorem ofReading_of_mem_ofPieces {line : Int} {pieces : List Piece} {d : Diagnostic}
    (h : d ∈ (ofPieces line pieces).diagnostics) : OfReading d := by
  induction pieces generalizing line with
  | nil => cases h
  | cons p rest ih =>
    simp only [ofPieces, add] at h
    split at h
    · exact ih h
    · exact ih h
    · exact ih h
    · rcases List.mem_cons.1 h with rfl | h
      · exact ⟨rfl, by simp [Diagnostic.isInternal_eq_false_iff, Diagnostic.atLine]⟩
      · exact ih h
    · rcases List.mem_cons.1 h with rfl | h
      · exact ⟨rfl, by simp [Diagnostic.isInternal_eq_false_iff, Diagnostic.atLine]⟩
      · exact ih h

end Scan

namespace FrontEnd

theorem Recovering.ofReading_of_mem_ofEvents {events : List Recovering.Event} {d : Diagnostic}
    (h : d ∈ (ofEvents events).diagnostics) : OfReading d := by
  obtain ⟨event, -, hd⟩ := List.mem_filterMap.1 h
  cases event with
  | statement s => cases hd
  | complaint t c =>
    cases hd
    refine ⟨rfl, Diagnostic.isInternal_eq_false_iff.2 ?_⟩
    cases c <;> simp [Diagnostic.atToken, Complaint.message]

namespace Strict

theorem ofReading_misplaced (line : Int) (text : List Char) : OfReading (misplaced line text) :=
  ⟨rfl, by simp [Diagnostic.isInternal_eq_false_iff, misplaced]⟩

theorem ofReading_of_read {phase : Phase} {line last : Int} {cs : List Char} {d : Diagnostic}
    (h : read phase line last cs = .error d) : OfReading d := by
  fun_induction read phase line last cs with
  | case1 => cases h
  | case2 =>
    cases h
    exact ⟨rfl, by simp [Diagnostic.isInternal_eq_false_iff]⟩
  | case3 _ _ _ _ _ _ _ ih => exact ih h
  | case4 =>
    cases h
    exact ofReading_misplaced _ _
  | case5 => cases h
  | case6 =>
    rename_i hrest ih
    cases h
    exact ih hrest
  | case7 =>
    cases h
    exact ofReading_misplaced _ _
  | case8 =>
    cases h
    exact ⟨rfl, by simp [Diagnostic.isInternal_eq_false_iff, Diagnostic.atLine]⟩

theorem ofReading_of_mem_ofSource {source : String} {d : Diagnostic}
    (h : d ∈ (ofSource source).diagnostics) : OfReading d := by
  unfold ofSource at h
  split at h
  · next hread =>
    rw [List.mem_singleton.1 h]
    exact ofReading_of_read hread
  · split at h
    · rw [List.mem_singleton.1 h]
      exact ⟨rfl, by simp [Diagnostic.isInternal_eq_false_iff, Diagnostic.atToken]⟩
    · cases h

end Strict

theorem ofReading_of_mem_parse {source : String} {frontEnd : FrontEnd} {d : Diagnostic}
    (h : d ∈ (parse source frontEnd).diagnostics) : OfReading d := by
  cases frontEnd with
  | descent =>
    rcases List.mem_append.1 h with h | h
    · exact Scan.ofReading_of_mem_ofPieces h
    · exact Recovering.ofReading_of_mem_ofEvents h
  | grammar => exact Strict.ofReading_of_mem_ofSource h

end FrontEnd

theorem Cause.isInternal_atToken {cause : Cause} (h : cause.isInternal = false) (t : Token) :
    (Diagnostic.atToken t (cause.message t.lexeme) .runtime).isInternal = false := by
  rw [Diagnostic.isInternal_eq_false_iff, Diagnostic.atToken]
  unfold Cause.message
  split
  case h_2 | h_5 => cases h
  all_goals simp

namespace Run

theorem ofRunning_of_diagnose {s : Node} {fault : Fault} {d : Diagnostic} (hfault : fault.Ordinary)
    (h : diagnose s fault = .ok d) : OfRunning d := by
  cases hfault with
  | failed _ hcause =>
    cases h
    exact ⟨rfl, Cause.isInternal_atToken hcause _⟩
  | tooDeep =>
    simp only [diagnose] at h
    split at h
    · cases h
      exact ⟨rfl, by simp [Diagnostic.isInternal_eq_false_iff, Diagnostic.atLine, tooDeepMessage]⟩
    · cases h

theorem Ends.ofRunning {nodes : List Node} {e : Effect} (h : Ends nodes e) {d : Diagnostic}
    (hd : d ∈ e.diagnostics) : OfRunning d := by
  obtain ⟨s, -, fault, hfault, hdiagnose⟩ := h.tells d hd
  exact ofRunning_of_diagnose hfault hdiagnose

end Run

/-! ## Sessions -/

namespace Session

theorem exists_note (s : Session) (lines : List String) : ∃ log, s.note lines = { s with log } := by
  unfold note
  split
  · exact ⟨_, rfl⟩
  · exact ⟨s.log, rfl⟩

theorem exists_noteAt (s : Session) (detail : Nat) (lines : List String) :
    ∃ log, s.noteAt detail lines = { s with log } := by
  unfold noteAt
  split
  · exact exists_note s lines
  · exact ⟨s.log, rfl⟩

/-- What statements do in a session that runs them to their end. Only the log is left open. -/
theorem execute_eq (s : Session) {nodes : List Node} (before : List Diagnostic) {v : Value}
    (h : (Run.program s.detail nodes s.scopes).outcome = .ok v) :
    ∃ log, s.execute nodes before =
      let effect := Run.program s.detail nodes s.scopes
      let all := before ++ effect.diagnostics
      ⟨{ s with scopes := effect.scopes, diagnostics := all, log }, effect.printed,
        Diagnostic.report all, .ok v⟩ := by
  simp only [execute, h]
  obtain ⟨log, hlog⟩ := exists_note
    { s with scopes := (Run.program s.detail nodes s.scopes).scopes }
    (Run.program s.detail nodes s.scopes).notes
  rw [hlog]
  obtain ⟨log', hlog'⟩ := exists_noteAt _ runDetail _
  rw [hlog']
  exact ⟨log', rfl⟩

/-- What a source text does in a session, apart from what is said about it. -/
def effect (s : Session) (source : String) : Effect :=
  Run.program s.detail (s.frontEnd.parse source).statements s.scopes

theorem ends_effect (s : Session) (source : String) :
    Run.Ends (s.frontEnd.parse source).statements (s.effect source) :=
  .of_runnable (fun _ hs => FrontEnd.runnable_of_mem_parse hs) ..

theorem exists_parse (s : Session) (source : String) :
    ∃ log, s.parse source = ({ s with log }, s.frontEnd.parse source) := by
  unfold parse
  split
  · obtain ⟨log, hlog⟩ := exists_note s (s.frontEnd.tokenNotes source)
    exact ⟨log, by rw [hlog]⟩
  · exact ⟨s.log, rfl⟩

/-- The answer to a source text. Only the log is left open. -/
theorem run_eq (s : Session) (source : String) :
    ∃ v log, (s.effect source).outcome = .ok v ∧ s.run source =
      let all := (s.frontEnd.parse source).diagnostics ++ (s.effect source).diagnostics
      ⟨{ s with scopes := (s.effect source).scopes, diagnostics := all, log },
        (s.effect source).printed, Diagnostic.report all, .ok v⟩ := by
  obtain ⟨v, hv⟩ := (ends_effect s source).finishes
  obtain ⟨log, hparse⟩ := exists_parse s source
  obtain ⟨log', hnote⟩ := exists_noteAt { s with log } runDetail
    [sizeNote source (s.frontEnd.parse source)]
  obtain ⟨log'', hexecute⟩ := execute_eq { s with log := log' }
    (s.frontEnd.parse source).diagnostics hv
  refine ⟨v, log'', hv, ?_⟩
  simp only [run, hparse, hnote]
  exact hexecute

section

variable (s : Session) (source : String)

@[simp] theorem run_scopes : (s.run source).session.scopes = (s.effect source).scopes := by
  obtain ⟨v, log, -, hrun⟩ := run_eq s source
  rw [hrun]

@[simp] theorem run_printed : (s.run source).printed = (s.effect source).printed := by
  obtain ⟨v, log, -, hrun⟩ := run_eq s source
  rw [hrun]

@[simp] theorem run_frontEnd : (s.run source).session.frontEnd = s.frontEnd := by
  obtain ⟨v, log, -, hrun⟩ := run_eq s source
  rw [hrun]

@[simp] theorem run_detail : (s.run source).session.detail = s.detail := by
  obtain ⟨v, log, -, hrun⟩ := run_eq s source
  rw [hrun]

theorem run_diagnostics : (s.run source).session.diagnostics =
    (s.frontEnd.parse source).diagnostics ++ (s.effect source).diagnostics := by
  obtain ⟨v, log, -, hrun⟩ := run_eq s source
  rw [hrun]

theorem run_outcome : (s.run source).outcome = (s.effect source).outcome := by
  obtain ⟨v, log, hv, hrun⟩ := run_eq s source
  rw [hrun, hv]

theorem run_complaints :
    (s.run source).complaints = Diagnostic.report (s.run source).session.diagnostics := by
  obtain ⟨v, log, -, hrun⟩ := run_eq s source
  rw [hrun]

end

/-- The answers to source texts that are run one after another. -/
def answers (s : Session) : List String → List Answer
  | [] => []
  | source :: rest => s.run source :: answers (s.run source).session rest

/-- The session after source texts that are run one after another. -/
def after (s : Session) : List String → Session
  | [] => s
  | source :: rest => (s.run source).session.after rest

theorem after_frontEnd (s : Session) (sources : List String) :
    (s.after sources).frontEnd = s.frontEnd := by
  induction sources generalizing s with
  | nil => rfl
  | cons source rest ih =>
    rw [after, ih]
    exact run_frontEnd s source

theorem run_finishes (s : Session) (source : String) :
    (∃ v, (s.run source).outcome = .ok v) ∧
      ∀ d ∈ (s.run source).session.diagnostics, d.isInternal = false := by
  rw [run_outcome, run_diagnostics]
  refine ⟨(ends_effect s source).finishes, fun d hd => ?_⟩
  rcases List.mem_append.1 hd with hd | hd
  · exact (FrontEnd.ofReading_of_mem_parse hd).notInternal
  · exact ((ends_effect s source).ofRunning hd).notInternal

/-- **Nothing escapes a session.** Whatever source texts it is given one after another, their token
lists are read within their bounds, each run ends with a value, and no diagnostic has a wording that
is meant for trees outside the grammar. -/
theorem answers_finish (s : Session) (sources : List String) :
    (∀ source ∈ sources, ∃ parsed,
      FrontEnd.Recovering.parse? (Scan.ofSource source).tokens = some parsed ∧
        FrontEnd.descent.parse source =
          ⟨parsed.statements, (Scan.ofSource source).diagnostics ++ parsed.diagnostics⟩) ∧
      ∀ a ∈ s.answers sources,
        (∃ v, a.outcome = .ok v) ∧ ∀ d ∈ a.session.diagnostics, d.isInternal = false := by
  refine ⟨fun source _ => ⟨_, FrontEnd.Recovering.parse?_tokens source, rfl⟩, ?_⟩
  induction sources generalizing s with
  | nil => simp [answers]
  | cons source rest ih =>
    intro a ha
    rcases List.mem_cons.1 ha with rfl | ha
    · exact run_finishes s source
    · exact ih _ a ha

/-- An open parenthesis and an unknown name are told about, and the next text runs. -/
theorem answers_finish_after_mistakes :
    let s : Session := { frontEnd := .descent, detail := 4 }
    let first := s.run "x = (1 +\nprint x"
    first.session.diagnostics.map (·.message) =
        ["Expect expression.", "Undefined Identifier: 'x' is unknown in this context."] ∧
      (∃ v, first.outcome = .ok v) ∧
      ∃ v, (first.session.run "print not \"\"; 2").outcome = .ok v := by
  have hfinish := (answers_finish { frontEnd := .descent, detail := 4 }
    ["x = (1 +\nprint x", "print not \"\"; 2"]).2
  exact ⟨by decide +kernel, (hfinish _ List.mem_cons_self).1,
    (hfinish _ (List.mem_cons_of_mem _ List.mem_cons_self)).1⟩

end Session

end Scriptlet
