import Scriptlet.CommandLine
import Scriptlet.Proofs.Files.Writing
import Scriptlet.Proofs.Session.Answers
import Scriptlet.Proofs.Syntax.Serialization

/-!
# Running a tree instead of its script

The tree of a valid script that is not too deep is written beside the script
(`CommandLine.emitTree_of_valid`), it is read back as it was (`CommandLine.readTree_treeText`), and
running it does what running the script does (`CommandLine.runTree_eq_runScript`): the two modes ask
for the exit status in different words, but a valid script has no diagnostics from its reading. The
tree of any other script is not written at all (`CommandLine.emitTree_of_diagnostics`).

Command lines without a log are these modes and nothing else (`CommandLine.run_eq_of_perform`),
which gives `CommandLine.run_tree_eq_run_script`.
-/

namespace Scriptlet

namespace CommandLine

/-! ## The text of a tree -/

/-- The text in which the tree of a source text is written. -/
def treeText (frontEnd : FrontEnd) (source : String) : String :=
  (Node.program (frontEnd.parse source).statements).json.pretty 0

section Texts

variable {frontEnd : FrontEnd} {source : String}
  (hlines : source.toList.count '\n' + 1 < 10 ^ Json.maxDigits)

include hlines

theorem readable_tree : (Node.program (frontEnd.parse source).statements).json.Readable
    ((Node.program (frontEnd.parse source).statements).depth + 2) := by
  refine Node.readable_json_program (fun s hs => FrontEnd.runnable_of_mem_parse hs) ?_
  intro s hs t ht
  have hbounds := FrontEnd.lines_of_mem_parse hs ht
  have hbreaks : Scan.lineBreaks source.toList = (source.toList.count '\n' : Int) := rfl
  refine Nat.lt_of_le_of_lt ?_ hlines
  omega

theorem return_notMem_treeText : '\r' ∉ (treeText frontEnd source).toList :=
  Json.return_notMem_pretty (readable_tree hlines) 0

/-- A tree is read back as it was. -/
theorem readTree_treeText
    (hdepth : (Node.program (frontEnd.parse source).statements).depth ≤ Node.depthLimit) :
    readTree (treeText frontEnd source) = .ok (.program (frontEnd.parse source).statements) := by
  have hlevels : (Node.program (frontEnd.parse source).statements).depth + 2 ≤ Json.nestingLimit :=
    Nat.le_trans (Nat.add_le_add_right hdepth 2) (by decide)
  have hread := Json.read_pretty ((readable_tree hlines).mono hlevels)
  simp only [readTree, treeText, hread, Node.ofJson_json _ hdepth]

end Texts

/-! ## Writing the tree -/

section Emitting

variable {session : Session} {files : Files} {path source : String}
  (hsource : Batch.readText files path = .ok source)

include hsource

/-- A script with a diagnostic leaves the files as they are. -/
theorem emitTree_of_diagnostics (h : (session.frontEnd.parse source).diagnostics ≠ []) :
    ∃ log, emitTree session files path =
      { session := { session with log }, files, exit := .ok 1
        stderr := Diagnostic.report (session.frontEnd.parse source).diagnostics } := by
  obtain ⟨log, hparse⟩ := session.exists_parse source
  have hempty : (session.frontEnd.parse source).diagnostics.isEmpty = false := by simpa using h
  refine ⟨log, ?_⟩
  simp only [emitTree, withText, hsource, hparse, hempty, Bool.false_eq_true, if_false]

/-- The tree of a valid script is written beside it. -/
theorem emitTree_of_valid (h : (session.frontEnd.parse source).diagnostics = [])
    (hdepth : (Node.program (session.frontEnd.parse source).statements).depth ≤ Node.depthLimit)
    {files' : Files}
    (hwrite : files.write (path ++ ".ast.json") (treeText session.frontEnd source) = .ok files') :
    ∃ log, emitTree session files path =
      { session := { session with log }, files := files', exit := .ok 0
        stdout := path ++ ".ast.json" ++ "\n" } := by
  obtain ⟨log, hparse⟩ := session.exists_parse source
  have hjson := Node.toJson_of_depth_le _ hdepth
  rw [treeText] at hwrite
  refine ⟨log, ?_⟩
  simp only [emitTree, withText, hsource, hparse, h, List.isEmpty_nil, if_true, hjson, hwrite]

end Emitting

/-! ## Running the tree -/

/-- Running the tree of a valid script ends as running the script does. -/
theorem runTree_eq_runScript {session other : Session} {files files' : Files}
    {path path' source text : String} (hsource : Batch.readText files path = .ok source)
    (htext : Batch.readText files' path' = .ok text)
    (hvalid : (session.frontEnd.parse source).diagnostics = [])
    (htree : readTree text = .ok (.program (session.frontEnd.parse source).statements))
    (hscopes : other.scopes = session.scopes) (hdetail : other.detail = session.detail) :
    let tree := runTree other files' path'
    let script := runScript session files path
    tree.exit = script.exit ∧ tree.stdout = script.stdout ∧ tree.stderr = script.stderr ∧
      tree.session.detail = other.detail ∧ script.session.detail = session.detail := by
  obtain ⟨v, log, hv, hrun⟩ := session.run_eq source
  have hv' : (Run.program other.detail (session.frontEnd.parse source).statements
      other.scopes).outcome = .ok v := by
    rw [hscopes, hdetail]
    exact hv
  obtain ⟨log', hexecute⟩ := other.execute_eq [] hv'
  -- A valid script has only diagnostics of its run, so both modes look at the same.
  have hcompile : Diagnostic.anyAt .compile (session.effect source).diagnostics = false := by
    refine List.any_eq_false.2 fun d hd => ?_
    rw [((session.ends_effect source).ofRunning hd).stage]
    decide
  have heffect : Run.program other.detail (session.frontEnd.parse source).statements other.scopes =
      session.effect source := by
    rw [hscopes, hdetail]
    rfl
  simp only [heffect, List.nil_append] at hexecute
  simp only [runTree, runScript, withText, hsource, htext, htree, Session.executeTree, hexecute,
    hrun, hvalid, List.nil_append, ended, Session.hadCompileError, Session.hadRuntimeError,
    hcompile, Bool.false_or, and_self]

/-! ## Command lines -/

/-- A command line without a log does what it is asked for and nothing else. -/
theorem run_eq_of_perform {arguments : List String} {options : Options} {frontEnd : FrontEnd}
    {files : Files} {typed : String} {ending : Ending}
    (harguments : Options.ofArguments arguments = .ok options)
    (hfrontEnd : options.frontEnd = some frontEnd) (hverbosity : options.verbosity = 0)
    (hperform : perform options { frontEnd, detail := 0 } files typed = ending)
    (hdetail : ending.session.detail = 0) :
    run arguments files typed = ⟨ending.exit, ending.stdout, ending.stderr, ending.files⟩ := by
  simp only [run, harguments, hfrontEnd, hverbosity, Session.start, if_true, hperform,
    Session.saveLog, hdetail]

theorem given_of_ne {text : String} (h : text ≠ "") : given (some text) = some text := by
  simp [given, h]

section Modes

variable {path : String} (hpath : path ≠ "") (frontEnd : Option FrontEnd) (session : Session)
  (files : Files) (typed : String)

include hpath

theorem perform_emit : perform { frontEnd, emit := some path } session files typed =
    emitTree session files (Files.plainPath path) := by
  simp only [perform, given_of_ne hpath]

theorem perform_tree : perform { frontEnd, tree := some path } session files typed =
    runTree session files (Files.plainPath path) := by
  simp only [perform, given_of_ne hpath]
  rfl

theorem perform_script : perform { frontEnd, script := some path } session files typed =
    runScript session files (Files.plainPath path) := by
  simp only [perform, given_of_ne hpath]
  rfl

end Modes

theorem ne_empty_of_plainPath {name path : String}
    (h : Files.plainPath name = path ++ ".ast.json") : name ≠ "" := by
  rintro rfl
  have hdot : Files.plainPath "" = "." := by decide
  have hlength := congrArg String.length (hdot.symm.trans h)
  rw [String.length_append, show ".".length = 1 from rfl, show ".ast.json".length = 9 from rfl]
    at hlength
  omega

section Scripts

variable {frontEnd : FrontEnd} {path source : String} {files : Files} (typed : String)
  (hpath : path ≠ "") (hsource : Batch.readText files (Files.plainPath path) = .ok source)

include hpath hsource

theorem run_emit_of_diagnostics {emit : List String}
    (hemit : Options.ofArguments emit = .ok { frontEnd := some frontEnd, emit := some path })
    (h : (frontEnd.parse source).diagnostics ≠ []) :
    run emit files typed =
      ⟨.ok 1, "", Diagnostic.report (frontEnd.parse source).diagnostics, files⟩ := by
  obtain ⟨log, hending⟩ := @emitTree_of_diagnostics { frontEnd, detail := 0 } _ _ _ hsource h
  exact run_eq_of_perform hemit rfl rfl ((perform_emit hpath ..).trans hending) rfl

theorem run_emit_of_valid {emit : List String}
    (hemit : Options.ofArguments emit = .ok { frontEnd := some frontEnd, emit := some path })
    (h : (frontEnd.parse source).diagnostics = [])
    (hdepth : (Node.program (frontEnd.parse source).statements).depth ≤ Node.depthLimit)
    {files' : Files} (hwrite : files.write (Files.plainPath path ++ ".ast.json")
      (treeText frontEnd source) = .ok files') :
    run emit files typed = ⟨.ok 0, Files.plainPath path ++ ".ast.json" ++ "\n", "", files'⟩ := by
  obtain ⟨log, hending⟩ := @emitTree_of_valid { frontEnd, detail := 0 } _ _ _ hsource h hdepth _
    hwrite
  exact run_eq_of_perform hemit rfl rfl ((perform_emit hpath ..).trans hending) rfl

/-- A command line that runs the tree of a valid script ends as one that runs the script. -/
theorem run_tree_of_readTree {script tree : List String} {other : FrontEnd} {name text : String}
    {files' : Files}
    (hscript : Options.ofArguments script = .ok { frontEnd := some frontEnd, script := some path })
    (htree : Options.ofArguments tree = .ok { frontEnd := some other, tree := some name })
    (hname : name ≠ "") (htext : Batch.readText files' (Files.plainPath name) = .ok text)
    (h : (frontEnd.parse source).diagnostics = [])
    (hread : readTree text = .ok (.program (frontEnd.parse source).statements)) :
    let executed := run tree files' typed
    let ran := run script files typed
    executed.exit = ran.exit ∧ executed.stdout = ran.stdout ∧ executed.stderr = ran.stderr := by
  obtain ⟨hexit, hstdout, hstderr, hdetail, hdetail'⟩ :=
    @runTree_eq_runScript { frontEnd, detail := 0 } { frontEnd := other, detail := 0 } _ _ _ _ _ _
      hsource htext h hread rfl rfl
  have hran := run_eq_of_perform hscript rfl rfl (perform_script hpath _ _ files typed) hdetail'
  have hexecuted := run_eq_of_perform htree rfl rfl (perform_tree hname _ _ files' typed) hdetail
  rw [hran, hexecuted]
  dsimp only
  exact ⟨hexit, hstdout, hstderr⟩

end Scripts

/-- **A tree that was written runs like its script.** A command line that is asked for the tree of a
script with diagnostics exits with status 1 and leaves the files as they are. If there are none and
the tree is within the limits of nesting and of line numbers, it writes the tree beside the script,
and running that file ends as running the script does. -/
theorem run_tree_eq_run_script {frontEnd : FrontEnd} {path source : String} {files : Files}
    {emit script : List String} (typed : String)
    (hemit : Options.ofArguments emit = .ok { frontEnd := some frontEnd, emit := some path })
    (hscript : Options.ofArguments script = .ok { frontEnd := some frontEnd, script := some path })
    (hpath : path ≠ "") (hsource : Batch.readText files (Files.plainPath path) = .ok source) :
    let parsed := frontEnd.parse source
    let target := Files.plainPath path ++ ".ast.json"
    let emitted := run emit files typed
    let ran := run script files typed
    (parsed.diagnostics ≠ [] → emitted.exit = .ok 1 ∧ emitted.files = files) ∧
      (parsed.diagnostics = [] → (∀ s ∈ parsed.statements, s.depth < Node.depthLimit) →
        source.toList.count '\n' + 1 < 10 ^ Json.maxDigits →
        (files.write target "").isOk = true →
        emitted.exit = .ok 0 ∧ emitted.stdout = target ++ "\n" ∧
          (∃ text, files.write target text = .ok emitted.files) ∧
          Files.plainPath target = target ∧
          ∀ (tree : List String) (other : FrontEnd) (name : String),
            Options.ofArguments tree = .ok { frontEnd := some other, tree := some name } →
            Files.plainPath name = target →
            let executed := run tree emitted.files typed
            executed.exit = ran.exit ∧ executed.stdout = ran.stdout ∧
              executed.stderr = ran.stderr) := by
  intro parsed target emitted ran
  refine ⟨fun hdiagnostics => ?_, fun hvalid hdepth hlines hwritable => ?_⟩
  · have hemitted : emitted = _ := run_emit_of_diagnostics typed hpath hsource hemit hdiagnostics
    rw [hemitted]
    exact ⟨rfl, rfl⟩
  · have hlevels : (Node.program parsed.statements).depth ≤ Node.depthLimit :=
      Node.depth_program_le (by decide) hdepth
    obtain ⟨files', hwrite⟩ := Files.exists_write hwritable (treeText frontEnd source)
    have hemitted : emitted = _ :=
      run_emit_of_valid typed hpath hsource hemit hvalid hlevels hwrite
    have hplain : Files.plainPath target = target :=
      Files.plainPath_append path (by decide) (by decide)
    rw [hemitted]
    refine ⟨rfl, rfl, ⟨_, hwrite⟩, hplain, fun tree other name htree hname => ?_⟩
    have htext := Batch.readText_of_write hwrite (return_notMem_treeText hlines)
    exact run_tree_of_readTree typed hpath hsource hscript htree (ne_empty_of_plainPath hname)
      (hname ▸ htext) hvalid (readTree_treeText hlines hlevels)

/-- A script of two lines with an unknown name on the second. -/
theorem run_tree_eq_run_script_unknown_name :
    let source := "print \"x\"\ny"
    let files : Files := ⟨[(["a.ms"], source.toUTF8)]⟩
    let emitted := run ["--parser", "grammar", "--emit-ast", "a.ms"] files ""
    let executed := run ["--ast", "./a.ms.ast.json"] emitted.files ""
    let ran := run ["--parser=grammar", "a.ms"] files ""
    emitted.exit = .ok 0 ∧ executed.exit = ran.exit ∧ executed.stdout = ran.stdout ∧
      executed.stderr = ran.stderr := by
  intro source files emitted executed ran
  have hplain : Files.plainPath "a.ms" = "a.ms" := by decide +kernel
  have hresolve : files.resolve "a.ms" = .ok ["a.ms"] := by decide +kernel
  have hcontent : files.content? ["a.ms"] = some source.toUTF8 := rfl
  have hsource : Batch.readText files (Files.plainPath "a.ms") = .ok source := by
    simp only [hplain, Batch.readText, Files.open?, hresolve, hcontent,
      @Batch.decode_toUTF8 source (by decide)]
  obtain ⟨hexit, -, -, -, htree⟩ := (@run_tree_eq_run_script .grammar "a.ms" source files
    ["--parser", "grammar", "--emit-ast", "a.ms"] ["--parser=grammar", "a.ms"] "" rfl rfl
    (by decide) hsource).2 (by decide +kernel) (by decide +kernel) (by decide +kernel)
    (by decide +kernel)
  have hname : Files.plainPath "./a.ms.ast.json" = Files.plainPath "a.ms" ++ ".ast.json" := by
    decide +kernel
  have harguments : Options.ofArguments ["--ast", "./a.ms.ast.json"] =
      .ok { frontEnd := some .descent, tree := some "./a.ms.ast.json" } := rfl
  have hexecuted := htree _ _ _ harguments hname
  exact ⟨hexit, hexecuted⟩

end CommandLine

end Scriptlet
