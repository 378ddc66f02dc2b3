import Mathlib.Data.List.Chain
import Scriptlet.Proofs.CommandLine.Trees

/-!
# What is said about a script

A command line that runs a script shows the first of every run of diagnostics on one line
(`Diagnostic.Runs`, `Diagnostic.exists_runs`). It decides about its exit status from other data, the
stages of the diagnostics; but every diagnostic has one of the two stages, and the first of all
diagnostics is always shown, so that the status, the text and the diagnostics never disagree
(`CommandLine.run_script_complaints`).
-/

namespace Scriptlet

namespace Diagnostic

/-! ## Runs on one line -/

/-- The diagnostics cut into runs, each given by its first diagnostic and the others: a run is on one
line, and no two neighbours are on the same. -/
structure Runs (ds : List Diagnostic) (runs : List (Diagnostic × List Diagnostic)) : Prop where
  all : ds = runs.flatMap fun run => run.1 :: run.2
  oneLine : ∀ run ∈ runs, ∀ d ∈ run.2, d.line = run.1.line
  apart : runs.IsChain fun run next => run.1.line ≠ next.1.line

/-- What is shown after a line are the firsts of the runs, once the diagnostics that are still on
that line are passed. -/
theorem exists_runs_after (line : Option Int) (ds : List Diagnostic) :
    ∃ passed rest runs, ds = passed ++ rest ∧ (∀ d ∈ passed, line = some d.line) ∧
      Runs rest runs ∧ (∀ run ∈ runs.head?, line ≠ some run.1.line) ∧
      shownAfter line ds = runs.map Prod.fst := by
  induction ds generalizing line with
  | nil => exact ⟨[], [], [], rfl, by simp, ⟨rfl, by simp, .nil⟩, by simp, rfl⟩
  | cons d ds ih =>
    by_cases hline : line = some d.line
    · obtain ⟨passed, rest, runs, rfl, hpassed, hruns, hhead, hshown⟩ := ih line
      refine ⟨d :: passed, rest, runs, rfl, List.forall_mem_cons.2 ⟨hline, hpassed⟩, hruns, hhead, ?_⟩
      rw [shownAfter, if_pos hline, hshown]
    · obtain ⟨passed, rest, runs, rfl, hpassed, hruns, hhead, hshown⟩ := ih (some d.line)
      refine ⟨[], _, (d, passed) :: runs, rfl, by simp, ⟨?_, ?_, ?_⟩, by simpa using hline, ?_⟩
      · rw [List.flatMap_cons, ← hruns.all]
        rfl
      · refine List.forall_mem_cons.2 ⟨fun e he => ?_, hruns.oneLine⟩
        exact (Option.some.inj (hpassed e he)).symm
      · exact List.isChain_cons.2 ⟨fun run hrun heq => hhead run hrun (congrArg some heq), hruns.apart⟩
      · rw [shownAfter, if_neg hline, hshown]
        rfl

/-- What is shown are the firsts of the runs. -/
theorem exists_runs (ds : List Diagnostic) : ∃ runs, Runs ds runs ∧ shown ds = runs.map Prod.fst := by
  obtain ⟨passed, rest, runs, rfl, hpassed, hruns, -, hshown⟩ := exists_runs_after none ds
  cases passed with
  | nil => exact ⟨runs, hruns, hshown⟩
  | cons d _ => cases hpassed d List.mem_cons_self

theorem report_eq_empty_iff {ds : List Diagnostic} : report ds = "" ↔ ds = [] := by
  cases ds with
  | nil => simp [report, shown, shownAfter]
  | cons d ds => simp [report, shown, shownAfter, String.append_eq_empty_iff]

theorem anyAt_compile_or_runtime (ds : List Diagnostic) :
    (anyAt .compile ds || anyAt .runtime ds) = !ds.isEmpty := by
  cases ds with
  | nil => rfl
  | cons d ds => cases hstage : d.stage <;> simp [anyAt, hstage]

end Diagnostic

theorem FrontEnd.Strict.length_diagnostics_le (source : String) :
    (ofSource source).diagnostics.length ≤ 1 := by
  unfold ofSource
  split
  · exact Nat.le_refl 1
  · split
    · exact Nat.le_refl 1
    · exact Nat.zero_le 1

/-! ## Scripts -/

namespace CommandLine

theorem session_of_start {frontEnd : FrontEnd} {detail : Nat} {files files' : Files}
    {session : Session} (h : Session.start frontEnd detail files = .ok (session, files')) :
    session = { frontEnd, detail } := by
  simp only [Session.start] at h
  split at h
  · cases h
    rfl
  · split at h
    · cases h
      rfl
    · cases h

section Scripts

variable {arguments : List String} {options : Options} {frontEnd : FrontEnd} {session : Session}
  {files files' : Files} {path source : String}

theorem perform_of_script (hemit : given options.emit = none) (htree : given options.tree = none)
    (hscript : given options.script = some path) (session : Session) (files : Files)
    (typed : String) : perform options session files typed =
      runScript session files (Files.plainPath path) := by
  simp only [perform, hemit, htree, hscript]

/-- What a script ends with: all its diagnostics are reported, and decide about the status. -/
theorem runScript_eq (hsource : Batch.readText files path = .ok source) :
    let reported := (session.run source).session.diagnostics
    (runScript session files path).stderr = Diagnostic.report reported ∧
      (runScript session files path).exit = .ok (if reported.isEmpty then 0 else 1) := by
  intro reported
  obtain ⟨v, hv⟩ := (session.run_finishes source).1
  have hfailed : ((session.run source).session.hadCompileError ||
      (session.run source).session.hadRuntimeError) = !reported.isEmpty :=
    Diagnostic.anyAt_compile_or_runtime reported
  simp only [runScript, withText, hsource, ended, hv, hfailed, session.run_complaints source]
  cases hempty : reported.isEmpty <;> exact ⟨rfl, rfl⟩

/-- The same for a command line that asks for the script, with or without a log. -/
theorem run_script_eq (typed : String)
    (harguments : Options.ofArguments arguments = .ok options)
    (hfrontEnd : options.frontEnd = some frontEnd) (hemit : given options.emit = none)
    (htree : given options.tree = none) (hscript : given options.script = some path)
    (hstart : Session.start frontEnd options.verbosity files = .ok (session, files'))
    (hsource : Batch.readText files' (Files.plainPath path) = .ok source) :
    let reading := frontEnd.parse source
    let reported := reading.diagnostics ++
      (Run.program options.verbosity reading.statements .empty).diagnostics
    (run arguments files typed).stderr = Diagnostic.report reported ∧
      (run arguments files typed).exit = .ok (if reported.isEmpty then 0 else 1) := by
  intro reading reported
  obtain rfl := session_of_start hstart
  have hreported : (({ frontEnd, detail := options.verbosity } : Session).run
      source).session.diagnostics = reported := Session.run_diagnostics _ source
  have hperform := perform_of_script hemit htree hscript
    { frontEnd, detail := options.verbosity } files' typed
  simp only [run, harguments, hfrontEnd, hstart, hperform, ← hreported]
  exact runScript_eq hsource

/-- **What is said about a script.** Whatever goes wrong in a script that can be read, the command
line ends with a status. It writes the first diagnostic of each run on one line, in the order in
which they were reported: those of the scan, then those of the parse, then those of the run, where a
front end that does not scan first stops at its first mistake. The status is 1 if anything was
reported, and so exactly if anything was written. -/
theorem run_script_complaints (typed : String)
    (harguments : Options.ofArguments arguments = .ok options)
    (hfrontEnd : options.frontEnd = some frontEnd) (hemit : given options.emit = none)
    (htree : given options.tree = none) (hscript : given options.script = some path)
    (hstart : Session.start frontEnd options.verbosity files = .ok (session, files'))
    (hsource : Batch.readText files' (Files.plainPath path) = .ok source) :
    let reading := frontEnd.parse source
    let running := Run.program options.verbosity reading.statements .empty
    let reported := reading.diagnostics ++ running.diagnostics
    let outcome := run arguments files typed
    (frontEnd = .descent → ∃ parsed,
      FrontEnd.Recovering.parse? (Scan.ofSource source).tokens = some parsed ∧
        reading.diagnostics = (Scan.ofSource source).diagnostics ++ parsed.diagnostics) ∧
      (frontEnd = .grammar → reading.diagnostics.length ≤ 1) ∧
      (∃ runs, Diagnostic.Runs reported runs ∧
        outcome.stderr = String.join (runs.map fun run => run.1.text ++ "\n")) ∧
      (outcome.exit = .ok 0 ∨ outcome.exit = .ok 1) ∧
      (outcome.exit = .ok 1 ↔ reported ≠ []) ∧ (outcome.exit = .ok 1 ↔ outcome.stderr ≠ "") := by
  intro reading running reported outcome
  obtain ⟨hstderr, hexit⟩ : outcome.stderr = Diagnostic.report reported ∧
      outcome.exit = .ok (if reported.isEmpty then 0 else 1) :=
    run_script_eq typed harguments hfrontEnd hemit htree hscript hstart hsource
  obtain ⟨runs, hruns, hshown⟩ := Diagnostic.exists_runs reported
  refine ⟨?_, ?_, ⟨runs, hruns, ?_⟩, ?_, ?_, ?_⟩
  · rintro rfl
    exact ⟨_, FrontEnd.Recovering.parse?_tokens source, rfl⟩
  · rintro rfl
    exact FrontEnd.Strict.length_diagnostics_le source
  · rw [hstderr, Diagnostic.report, hshown, List.map_map]
    rfl
  · rw [hexit]
    split
    · exact .inl rfl
    · exact .inr rfl
  · rw [hexit]
    cases reported <;> simp
  · rw [hexit, hstderr, ne_eq, Diagnostic.report_eq_empty_iff]
    cases reported <;> simp

end Scripts

/-- Something goes wrong at every stage, twice on the second line, and the lines go back where the
run starts. -/
theorem run_script_complaints_every_stage :
    let source := "w\ny ? z\nx"
    let files : Files := ⟨[(["a.ms"], source.toUTF8)]⟩
    let reading := FrontEnd.descent.parse source
    let running := Run.program 0 reading.statements .empty
    let outcome := run ["a.ms"] files ""
    (reading.diagnostics ++ running.diagnostics).map (·.line) = [2, 2, 1, 3] ∧
      outcome.exit = .ok 1 ∧ outcome.stderr ≠ "" := by
  intro source files reading running outcome
  have hplain : Files.plainPath "a.ms" = "a.ms" := by decide +kernel
  have hresolve : files.resolve "a.ms" = .ok ["a.ms"] := by decide +kernel
  have hcontent : files.content? ["a.ms"] = some source.toUTF8 := rfl
  have hsource : Batch.readText files (Files.plainPath "a.ms") = .ok source := by
    simp only [hplain, Batch.readText, Files.open?, hresolve, hcontent,
      @Batch.decode_toUTF8 source (by decide)]
  have hlines : (reading.diagnostics ++ running.diagnostics).map (·.line) = [2, 2, 1, 3] := by
    decide +kernel
  obtain ⟨-, -, -, -, hstatus, hwritten⟩ := @run_script_complaints ["a.ms"] { script := some "a.ms" }
    .descent { frontEnd := .descent, detail := 0 } files files "a.ms" source "" rfl rfl rfl rfl rfl
    rfl hsource
  have hexit : outcome.exit = .ok 1 := hstatus.2 fun hnone => by
    rw [hnone] at hlines
    cases hlines
  exact ⟨hlines, hexit, hwritten.1 hexit⟩

end CommandLine

end Scriptlet
