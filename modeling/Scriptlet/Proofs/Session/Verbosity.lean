import Scriptlet.Proofs.Session.Answers

/-!
# What the detail of a log changes

A session writes a log of the detail it was opened with. The detail decides which notes are kept,
and nothing reads the notes back; but from some detail on a statement goes to the log before it
runs, and a statement too deep to be written down (`Node.isUnwritable`) is reported instead of being
executed. Where no statement of a source text is that deep, each one is executed whatever the
detail (`Run.attempt_of_writable`), so sessions that read alike and have the same scopes answer
alike (`Session.Alike.run`, `Session.run_after_agrees`).

The scopes must be the same when the source text is run. A statement that is too deep in an earlier
source text can tell two logs apart for good: evaluation need not descend as far as writing down
does, and `null and 1 + 1 + … + 1` has a value that only the less detailed session comes to bind
(`Session.not_agrees_after_deep_sum`).
-/

namespace Scriptlet

/-- The tree of a statement is too deep for a log to show it. -/
def Node.isUnwritable (n : Node) : Bool :=
  match n.format depthLimit with
  | .error .tooDeep => true
  | _ => false

/-- A log can show every statement of the source text. -/
def FrontEnd.Writable (frontEnd : FrontEnd) (source : String) : Prop :=
  ∀ n ∈ (frontEnd.parse source).statements, n.isUnwritable = false

instance (frontEnd : FrontEnd) (source : String) : Decidable (frontEnd.Writable source) :=
  inferInstanceAs (Decidable (∀ n ∈ _, _))

/-! ## Statements -/

namespace Run

/-- A statement that a log can show is executed, whatever the detail. -/
theorem attempt_of_writable {n : Node} (hrunnable : n.Runnable) (h : n.isUnwritable = false)
    (detail : Nat) (scopes : Scopes Value) : attempt detail n scopes = performed n scopes := by
  by_cases hdetail : statementDetail ≤ detail
  · simp only [attempt, hdetail, if_true]
    cases hformat : n.format Node.depthLimit with
    | ok text => rfl
    | error refusal =>
      cases refusal with
      | tooDeep => simp [Node.isUnwritable, hformat] at h
      | outOfPlace m => exact absurd hformat (hrunnable.format_ne m _)
  · simp only [attempt, hdetail, if_false]

/-- Up to notes, statements that a log can show run alike with any two details. -/
theorem withoutNotes_statements_of_writable {nodes : List Node}
    (hrunnable : ∀ n ∈ nodes, n.Runnable) (h : ∀ n ∈ nodes, n.isUnwritable = false)
    (detail detail' : Nat) (scopes : Scopes Value) (v : Value) :
    (statements detail nodes scopes v).withoutNotes =
      (statements detail' nodes scopes v).withoutNotes := by
  induction nodes generalizing scopes v with
  | nil => rfl
  | cons n nodes ih =>
    have hn := attempt_of_writable (hrunnable n List.mem_cons_self) (h n List.mem_cons_self)
    have hrest := ih (fun m hm => hrunnable m (List.mem_cons_of_mem _ hm))
      fun m hm => h m (List.mem_cons_of_mem _ hm)
    rw [withoutNotes_statements_cons, withoutNotes_statements_cons, hn, hn]
    congr 1
    funext scopes' w
    exact hrest scopes' w

end Run

/-! ## Sessions -/

/-- Answers that differ at most in the log and in its detail. -/
structure Answer.Agrees (a b : Answer) : Prop where
  outcome : a.outcome = b.outcome
  scopes : a.session.scopes = b.session.scopes
  printed : a.printed = b.printed
  diagnostics : a.session.diagnostics = b.session.diagnostics
  complaints : a.complaints = b.complaints

namespace Session

/-- Sessions that read alike and have the same scopes. -/
structure Alike (s s' : Session) : Prop where
  frontEnd : s.frontEnd = s'.frontEnd
  scopes : s.scopes = s'.scopes

namespace Alike

variable {s s' : Session}

theorem withoutNotes_effect (h : Alike s s') {source : String}
    (hsource : s.frontEnd.Writable source) :
    (s.effect source).withoutNotes = (s'.effect source).withoutNotes := by
  rw [effect, effect, ← h.frontEnd, ← h.scopes]
  exact Run.withoutNotes_statements_of_writable (fun _ hn => FrontEnd.runnable_of_mem_parse hn)
    hsource ..

/-- A source text that a log can show is answered alike. -/
theorem run (h : Alike s s') {source : String} (hsource : s.frontEnd.Writable source) :
    (s.run source).Agrees (s'.run source) := by
  have heffect := h.withoutNotes_effect hsource
  simp only [Effect.withoutNotes, Effect.mk.injEq] at heffect
  obtain ⟨hscopes, hprinted, -, hdiagnostics, houtcome⟩ := heffect
  have hall : (s.run source).session.diagnostics = (s'.run source).session.diagnostics := by
    rw [run_diagnostics, run_diagnostics, h.frontEnd, hdiagnostics]
  exact {
    outcome := by rw [run_outcome, run_outcome, houtcome]
    scopes := by rw [run_scopes, run_scopes, hscopes]
    printed := by rw [run_printed, run_printed, hprinted]
    diagnostics := hall
    complaints := by rw [run_complaints, run_complaints, hall] }

/-- Source texts that a log can show leave sessions alike. -/
theorem after {sources : List String} (h : Alike s s')
    (hsources : ∀ source ∈ sources, s.frontEnd.Writable source) :
    Alike (s.after sources) (s'.after sources) := by
  induction sources generalizing s s' with
  | nil => exact h
  | cons source rest ih =>
    have hrun := h.run (hsources source List.mem_cons_self)
    refine ih ⟨?_, hrun.scopes⟩ ?_
    · rw [run_frontEnd, run_frontEnd, h.frontEnd]
    · intro other hother
      rw [run_frontEnd]
      exact hsources other (List.mem_cons_of_mem _ hother)

end Alike

/-- **Detail changes the log only.** Two sessions that differ in the detail of their logs give the
same value, leave the same scopes, print the same lines and report the same diagnostics for every
source text that a log can show, as long as they come to it with the same scopes; they do if a log
can show every source text before it. -/
theorem run_after_agrees (s : Session) (detail detail' : Nat) (sources : List String)
    (source : String)
    (hsources : (∀ text ∈ sources, s.frontEnd.Writable text) ∨
      ({ s with detail := detail }.after sources).scopes =
        ({ s with detail := detail' }.after sources).scopes)
    (hsource : s.frontEnd.Writable source) :
    (({ s with detail := detail }.after sources).run source).Agrees
      (({ s with detail := detail' }.after sources).run source) := by
  have hfrontEnd : ∀ d, ({ s with detail := d }.after sources).frontEnd = s.frontEnd :=
    fun d => after_frontEnd { s with detail := d } sources
  have halike : Alike ({ s with detail := detail }.after sources)
      ({ s with detail := detail' }.after sources) := by
    rcases hsources with hsources | hscopes
    · exact Alike.after ⟨rfl, rfl⟩ hsources
    · exact ⟨(hfrontEnd detail).trans (hfrontEnd detail').symm, hscopes⟩
  refine halike.run ?_
  rwa [hfrontEnd]

/-- Mistakes of both stages, assignments and texts are answered alike without a log and with the
most detailed one. -/
theorem run_after_agrees_mistakes :
    let fresh : Session := { frontEnd := .grammar, detail := 0 }
    let a := ({ fresh with detail := 0 }.after ["a = \"t\"; b", "c ="]).run "print a; b = a - null"
    let b := ({ fresh with detail := 4 }.after ["a = \"t\"; b", "c ="]).run "print a; b = a - null"
    a.printed = ["t"] ∧ a.Agrees b ∧ a.session.log = [] ∧ b.session.log ≠ [] := by
  intro fresh a b
  have hagrees : a.Agrees b :=
    run_after_agrees fresh 0 4 ["a = \"t\"; b", "c ="] "print a; b = a - null"
      (.inl (by decide +kernel)) (by decide +kernel)
  exact ⟨by decide +kernel, hagrees, by decide +kernel, by decide +kernel⟩

end Session

/-! ## A statement that is evaluated but not written down -/

namespace DeepSum

/-- The word `null`. -/
def nullToken : Token := ⟨.nullWord, "null", 1⟩

/-- The word `and`. -/
def andToken : Token := ⟨.andWord, "and", 1⟩

/-- A plus sign. -/
def plusToken : Token := ⟨.plus, "+", 1⟩

/-- The number one. -/
def oneToken : Token := ⟨.number, "1", 1⟩

/-- `1 + 1 + … + 1` with so many plus signs. -/
def sum : Nat → Node
  | 0 => .literal oneToken
  | n + 1 => .binary (sum n) plusToken (.literal oneToken)

/-- The statement `null and 1 + 1 + … + 1`. -/
def statement (n : Nat) : Node :=
  .expression (.binary (.literal nullToken) andToken (sum n))

/-- The source text of the statement. -/
def text (n : Nat) : String :=
  String.ofList ("null and 1".toList ++ (List.replicate n ['+', '1']).flatten)

/-- The tokens of the statement. -/
def tokens (n : Nat) : List Token :=
  nullToken :: andToken :: oneToken :: (List.replicate n [plusToken, oneToken]).flatten

theorem extent_one (n : Nat) :
    Piece.extent '1' (List.replicate n ['+', '1']).flatten = (.token .number, 0) := by
  cases n <;> rfl

theorem ofChars_ones (n : Nat) :
    Scan.ofChars 1 (List.replicate n ['+', '1']).flatten =
      ⟨(List.replicate n [plusToken, oneToken]).flatten, 1, []⟩ := by
  induction n with
  | zero => exact Scan.ofChars_nil 1
  | succ n ih =>
    simp only [List.replicate_succ, List.flatten_cons, List.cons_append, List.nil_append]
    rw [@Scan.ofChars_inLine 1 '+' _ .plus 0 rfl (by simp), List.drop_zero,
      Scan.ofChars_inLine (extent_one n) (by simp), List.drop_zero, ih]
    rfl

/-- A word and the blank after it. -/
theorem ofChars_word {c : Char} {word : List Char} (hletter : Text.isLetter c = true)
    (hword : word.all Text.isWordChar = true) (rest : List Char) :
    Scan.ofChars 1 (c :: (word ++ ' ' :: rest)) =
      let s := Scan.ofChars 1 rest
      { s with body := ⟨Piece.wordKind (c :: word), String.ofList (c :: word), 1⟩ :: s.body } := by
  have hall : ∀ a ∈ word, Text.isWordChar a = true := List.all_eq_true.1 hword
  have hblank : Text.isWordChar ' ' = false := by decide
  have hlength : Lexeme.wordLength (word ++ ' ' :: rest) = word.length := by
    simp [Lexeme.wordLength, Lexeme.run, List.takeWhile_append_of_pos hall, hblank]
  have hextent := Piece.extent_of_isLetter (word ++ ' ' :: rest) (.inl hletter)
  rw [hlength, List.take_left] at hextent
  have hbreaks : '\n' ∉ c :: word := by
    have hbreak : Text.isWordChar '\n' = false ∧ Text.isLetter '\n' = false := by decide
    intro hmem
    rcases List.mem_cons.1 hmem with rfl | hmem
    · exact absurd (hletter.symm.trans hbreak.2) (by decide)
    · exact absurd ((hall _ hmem).symm.trans hbreak.1) (by decide)
  rw [Scan.ofChars_inLine hextent (by rwa [List.take_left]), List.take_left, List.drop_left,
    Scan.ofChars_blank 1 rest (.inl rfl)]

theorem ofSource_text (n : Nat) : Scan.ofSource (text n) = ⟨tokens n, 1, []⟩ := by
  have hletters : "null and 1".toList = ['n', 'u', 'l', 'l', ' ', 'a', 'n', 'd', ' ', '1'] := by
    simp
  have htext : (text n).toList = 'n' :: (['u', 'l', 'l'] ++ ' ' :: 'a' :: (['n', 'd'] ++ ' ' ::
      '1' :: (List.replicate n ['+', '1']).flatten)) :=
    calc (text n).toList = "null and 1".toList ++ (List.replicate n ['+', '1']).flatten :=
          String.toList_ofList
      _ = _ := by rw [hletters]; rfl
  have hnull : Piece.wordKind ['n', 'u', 'l', 'l'] = .nullWord := by decide +kernel
  have hand : Piece.wordKind ['a', 'n', 'd'] = .andWord := by decide +kernel
  have hsource : Scan.ofSource (text n) = Scan.ofChars 1 (text n).toList := rfl
  rw [hsource, htext, ofChars_word rfl rfl, ofChars_word rfl rfl,
    Scan.ofChars_inLine (extent_one n) (by simp), List.drop_zero, ofChars_ones, hnull, hand]
  rfl

theorem ofLevel_literal {t : Token} (h : t.kind.isLiteral = true) (level : Level) :
    (Node.literal t).OfLevel level :=
  (Node.OfLevel.literal (Kind.isLiteral_iff.1 h)).loosen level.rank_le

theorem ofLevel_sum (n : Nat) : (sum n).OfLevel .term := by
  induction n with
  | zero => exact ofLevel_literal rfl .term
  | succ n ih => exact .operation (by decide) ih (ofLevel_literal rfl .factor)

theorem spells_sum (n : Nat) :
    (sum n).Spells (oneToken :: (List.replicate n [plusToken, oneToken]).flatten) := by
  induction n with
  | zero => exact .literal oneToken
  | succ n ih =>
    have hspells : (sum (n + 1)).Spells _ := .binary ih (.literal oneToken)
    simpa [List.replicate_succ'] using hspells

theorem nesting_sum (n : Nat) : (sum n).nesting = 0 := by
  induction n with
  | zero => rfl
  | succ n ih =>
    have hplus : plusToken.kind ≠ .equal := by decide
    simp only [sum, Node.nesting, ih, hplus, if_false, Nat.max_self]

/-- The text is read as the statement, however deep it is. -/
theorem parse_text (n : Nat) : (FrontEnd.descent.parse (text n)).statements = [statement n] := by
  have hcanonical : (statement n).Canonical :=
    .expression (.ofTighter (.operation (by decide) (ofLevel_literal rfl .logical)
      ((ofLevel_sum n).loosen (by decide))))
  have hspells : (statement n).Spells (tokens n) :=
    .expression (.binary (.literal nullToken) (spells_sum n))
  -- Operators between operands are read in a loop, so the front end's own limit is far away.
  have hnesting : (statement n).nesting = 0 := by
    have hand : andToken.kind ≠ .equal := by decide
    simp only [statement, Node.nesting, nesting_sum, hand, if_false, Nat.max_self]
  rcases FrontEnd.Recovering.read_writes (.last hspells) (by simpa using hcanonical)
    (Scan.ofSource (text n)).final with ⟨-, hread⟩ | ⟨hdeep, -⟩
  · simp only [FrontEnd.parse, FrontEnd.Recovering.ofScan, ofSource_text] at hread ⊢
    rw [hread]
    rfl
  · simp [hnesting] at hdeep

theorem format_sum {n levels : Nat} (h : levels ≤ n) :
    (sum n).format levels = .error .tooDeep := by
  induction levels generalizing n with
  | zero => cases n <;> rfl
  | succ levels ih =>
    cases n with
    | zero => omega
    | succ n =>
      have hleft := ih (Nat.le_of_succ_le_succ h)
      simp only [sum, Node.format, hleft]
      rfl

theorem format_statement {n : Nat} (h : Node.depthLimit ≤ n) :
    (statement n).format Node.depthLimit = .error .tooDeep := by
  have hsum : (sum n).format 983 = .error .tooDeep := format_sum (Nat.le_trans (by decide) h)
  simp only [statement, Node.depthLimit, Node.format, hsum]
  rfl

/-- Without a log the statement is executed: its value, which is false, is bound. -/
theorem scopes_without_log (n : Nat) (scopes : Scopes Value) :
    (Run.program 0 [statement n] scopes).scopes =
      scopes.defineGlobal Run.lastValue (.ofBool false) := by
  -- `null` decides the value, so the sum is never looked at.
  have hstatement : Run.statement 0 (statement n) scopes =
      { scopes := scopes.defineGlobal Run.lastValue (.ofBool false)
        outcome := .ok (.ofBool false) } :=
    rfl
  rw [Run.program, Run.statements, hstatement]
  rfl

/-- With a log that shows statements it is not executed. -/
theorem scopes_with_log {n detail : Nat} (h : Node.depthLimit ≤ n)
    (hdetail : Run.statementDetail ≤ detail) (scopes : Scopes Value) :
    (Run.program detail [statement n] scopes).scopes = scopes := by
  have hformat := format_statement h
  simp only [Run.program, Run.statements, Run.statement, hdetail, if_true, hformat]
  rfl

end DeepSum

namespace Session

theorem printed_run_after (s : Session) (first second : String) :
    ((s.after [first]).run second).printed =
      (Run.program s.detail (s.frontEnd.parse second).statements
        (s.effect first).scopes).printed := by
  simp only [after, run_printed, effect, run_frontEnd, run_detail, run_scopes]

/-- Without a log the value of the sum can be printed afterwards. -/
theorem printed_without_log (n : Nat) :
    ((({ frontEnd := .descent, detail := 0 } : Session).after [DeepSum.text n]).run
      "print _").printed.length = 1 := by
  rw [printed_run_after, effect, DeepSum.parse_text, DeepSum.scopes_without_log]
  decide +kernel

/-- With a log that shows statements it cannot, if the sum is deep. -/
theorem printed_with_log {n : Nat} (h : Node.depthLimit ≤ n) :
    ((({ frontEnd := .descent, detail := 2 } : Session).after [DeepSum.text n]).run
      "print _").printed = [] := by
  rw [printed_run_after, effect, DeepSum.parse_text, DeepSum.scopes_with_log h (by decide)]
  decide +kernel

/-- Not every source text that a log can show is answered alike: `print _` is not, after a sum that
is executed without a log and is too deep to be written down in one. -/
theorem not_agrees_after_deep_sum :
    FrontEnd.descent.Writable "print _" ∧
      ¬((({ frontEnd := .descent, detail := 0 } : Session).after [DeepSum.text 1200]).run
          "print _").Agrees
        ((({ frontEnd := .descent, detail := 2 } : Session).after [DeepSum.text 1200]).run
          "print _") := by
  refine ⟨by decide +kernel, fun hagrees => ?_⟩
  have hlength := congrArg List.length hagrees.printed
  rw [printed_without_log, printed_with_log (by decide)] at hlength
  cases hlength

end Session

end Scriptlet
