import Scriptlet.Proofs.FrontEnd.Agreement
import Scriptlet.Proofs.Scanning.Atoms
import Scriptlet.Proofs.Session.Answers

/-!
# Writing texts down

Every text can be written in a program, between quotes and with each quote in it doubled
(`Text.enquote`), and whatever stands in a program as a text is written so. Three parts of the
language know about doubled quotes: the scan, the strict front end and the evaluation of literals.
Each is compared with `Text.enquote` and not with the others.

* Evaluation undoes it (`Evaluation.unquote_enquote`).
* A scan cuts a written text as one token (`Scan.atomic_enquote`) and cuts nothing else as a text
  (`Piece.exists_enquote_of_extent`).
* What the strict front end finds as a text is a written text, also where a text that never closes
  gives its last quote back (`FrontEnd.Strict.exists_doubleQuotes_of_closing?`).

That the strict front end finds every written text need not be proved again: it takes what the
recovering one takes.
-/

namespace Scriptlet

/-! ## Writing and reading back -/

namespace Text

/-- A text as it is written in a program. -/
def enquote (x : String) : String := String.ofList ('"' :: (doubleQuotes x.toList ++ ['"']))

theorem enquote_ofList (inner : List Char) :
    enquote (String.ofList inner) = String.ofList ('"' :: (doubleQuotes inner ++ ['"'])) := by
  rw [enquote, String.toList_ofList]

end Text

namespace Evaluation

theorem undouble_cons_of_ne {c : Char} (h : c ≠ '"') (rest : List Char) :
    unquote.undouble (c :: rest) = c :: unquote.undouble rest := by
  refine unquote.undouble.eq_3 c rest ?_
  intro tail hc
  exact absurd hc h

theorem undouble_doubleQuotes (cs : List Char) :
    unquote.undouble (Text.doubleQuotes cs) = cs := by
  induction cs with
  | nil => rfl
  | cons c rest ih =>
    by_cases hc : c = '"'
    · subst hc
      rw [Text.doubleQuotes_quote, unquote.undouble, ih]
    · rw [Text.doubleQuotes_of_ne hc, undouble_cons_of_ne hc, ih]

/-- A text that was written down is read back. -/
theorem unquote_enquote (x : String) : unquote (Text.enquote x) = x := by
  rw [unquote, Text.enquote, String.toList_ofList, List.drop_one, List.tail_cons,
    List.dropLast_concat, undouble_doubleQuotes, String.ofList_toList]

theorem literal_enquote (x : String) (line : Int) :
    literal ⟨.string, Text.enquote x, line⟩ = pure (.text x) := by
  simp only [literal, unquote_enquote]

end Evaluation

/-! ## Scans -/

/-- What is cut as a text is a written text. -/
theorem Piece.exists_enquote_of_extent {c : Char} {rest : List Char} {n : Nat}
    (h : extent c rest = (.token .string, n)) :
    ∃ x, String.ofList (c :: rest.take n) = Text.enquote x := by
  have hmaximal := maximal_of_extent h
  generalize hp : (⟨.token .string, c :: rest.take n⟩ : Piece) = p at hmaximal
  cases hmaximal with
  | string inner =>
    obtain ⟨-, htext⟩ := Piece.mk.inj hp
    exact ⟨String.ofList inner, by rw [htext, Text.enquote_ofList]⟩
  | word =>
    have hkind := Role.token.inj (Piece.mk.inj hp).1
    exact absurd hkind.symm (wordKind_ne _ (by decide) (by decide))
  | mark mem | pair mem | single mem =>
    obtain rfl := Role.token.inj (Piece.mk.inj hp).1
    simp [marks, pairs, singles] at mem
  | _ => cases (Piece.mk.inj hp).1

namespace Scan

theorem exists_enquote_of_mem {line : Int} {cs : List Char} {t : Token}
    (h : t ∈ (ofChars line cs).body) (hstring : t.kind = .string) :
    ∃ x, t.lexeme = Text.enquote x := by
  obtain ⟨c, rest, n, hextent, hlexeme⟩ := exists_extent_of_mem h
  rw [hstring] at hextent
  rw [hlexeme]
  exact Piece.exists_enquote_of_extent hextent

/-- A written text is one token. -/
theorem atomic_enquote (x : String) : Atomic .string (Text.enquote x) := by
  have hmaximal : Piece.Maximal [] ⟨.token .string, (Text.enquote x).toList⟩ := by
    rw [Text.enquote, String.toList_ofList]
    exact .string x.toList (Lexeme.ends_nil _)
  exact atomic_of_maximal hmaximal

/-- One token after `print` makes two. -/
theorem ofSource_print {k : Kind} {text : String} (h : Atomic k text) :
    ofSource ("print " ++ text) =
      ⟨[⟨.printWord, "print", 1⟩, ⟨k, text, 1 + lineBreaks text.toList.dropLast⟩],
        1 + lineBreaks text.toList, []⟩ := by
  have hword : Atomic .printWord "print" := by decide +kernel
  obtain ⟨next, hmaximal⟩ := hword.tiles.exists_maximal List.mem_cons_self
  have hblank : Piece.Maximal text.toList ⟨.blank, [' ']⟩ := .blank (.inl rfl)
  have htiles := Piece.Tiles.cons (hmaximal.parted rfl (Lexeme.parted_blank text.toList))
    (Piece.Tiles.cons hblank h.tiles)
  have hsource : ("print " ++ text).toList = "print".toList ++ ' ' :: text.toList := by
    rw [String.toList_append]
    rfl
  rw [ofSource, hsource, htiles.ofChars_eq]
  simp only [ofPieces, add, String.ofList_toList]
  rfl

end Scan

/-! ## Front ends -/

theorem Node.exists_literal_of_mapTokens {f : Token → Token} {s : Node} {t : Token}
    (h : s.mapTokens f = .print (.literal t)) : ∃ u, s = .print (.literal u) ∧ f u = t := by
  cases s with
  | print e =>
    cases e with
    | literal u => exact ⟨u, rfl, Node.literal.inj (Node.print.inj h)⟩
    | _ => cases Node.print.inj h
  | _ => cases h

namespace FrontEnd

namespace Strict

/-- Up to the quote that closes a text all quotes stand in pairs. -/
theorem exists_doubleQuotes_of_closing? {cs : List Char} {n : Nat} (h : closing? cs = some n) :
    ∃ inner, cs.take n = Text.doubleQuotes inner ++ ['"'] := by
  fun_induction closing? cs generalizing n with
  | case1 => cases h
  | case2 rest m hm ih =>
    cases h
    obtain ⟨inner, htake⟩ := ih hm
    refine ⟨'"' :: inner, ?_⟩
    rw [Text.doubleQuotes_quote, List.take_succ_cons, List.take_succ_cons, htake]
    rfl
  | case3 rest hnone =>
    -- the text never closes, and this pair is its last
    cases h
    exact ⟨[], rfl⟩
  | case4 rest hne =>
    cases h
    exact ⟨[], rfl⟩
  | case5 c rest hpair hquote ih =>
    obtain ⟨m, hm, rfl⟩ := Option.map_eq_some_iff.1 h
    obtain ⟨inner, htake⟩ := ih hm
    refine ⟨c :: inner, ?_⟩
    rw [Text.doubleQuotes_of_ne hquote, List.take_succ_cons, htake]
    rfl

/-- A text that the strict front end finds is a written text. -/
theorem exists_enquote_of_find {expected : Expected} {c : Char} {rest : List Char} {n : Nat}
    (h : find expected c rest = .token .string n) (htakes : takes expected .string = true) :
    ∃ x, String.ofList (c :: rest.take n) = Text.enquote x := by
  have hfound := operandFound_of_isLiteral h htakes rfl
  generalize hk : Kind.string = k at hfound
  cases hfound with
  | text found =>
    unfold text? at found
    split at found
    · next hquote =>
      obtain ⟨inner, htake⟩ := exists_doubleQuotes_of_closing? found
      exact ⟨String.ofList inner, by rw [hquote, htake, Text.enquote_ofList]⟩
    · cases found
  | word => exact absurd hk.symm (wordKind_ne _ _ (by decide) (by decide))
  | separator found =>
    subst hk
    exact absurd (isSeparator_of_separator? found) (by decide)
  | number | minus | opening => cases hk

end Strict

/-- **The texts that a front end builds statements with are written texts**, whatever is wrong with
the source text. -/
theorem exists_enquote_of_mem_parse {source : String} {frontEnd : FrontEnd} {s : Node}
    (h : s ∈ (parse source frontEnd).statements) {t : Token} (ht : t ∈ s.tokens)
    (hstring : t.kind = .string) : ∃ x, t.lexeme = Text.enquote x := by
  cases frontEnd with
  | descent =>
    obtain ⟨-, us, hspells, hsub⟩ := Recovering.exists_spells_of_mem_read h
    exact Scan.exists_enquote_of_mem (hsub t (hspells.mem_of_mem_tokens ht)) hstring
  | grammar =>
    obtain ⟨tokens, statements, hrun, -, -, us, hspells, hsub⟩ :=
      Strict.exists_run_of_mem_ofSource h
    refine Strict.forall_of_run (fun k lexeme => k = .string → ∃ x, lexeme = Text.enquote x) ?_
      hrun t (hsub t (hspells.mem_of_mem_tokens ht)) hstring
    rintro expected c rest k n hfind htakes rfl
    exact Strict.exists_enquote_of_find hfind htakes

/-- A written text after `print` is read as one statement by every front end. -/
theorem exists_parse_print (x : String) (frontEnd : FrontEnd) :
    ∃ line, parse ("print " ++ Text.enquote x) frontEnd =
      ⟨[.print (.literal ⟨.string, Text.enquote x, line⟩)], []⟩ := by
  have hdescent : ∃ line, parse ("print " ++ Text.enquote x) descent =
      ⟨[.print (.literal ⟨.string, Text.enquote x, line⟩)], []⟩ := by
    rw [parse, Scan.ofSource_print (Scan.atomic_enquote x)]
    exact ⟨_, rfl⟩
  cases frontEnd with
  | descent => exact hdescent
  | grammar =>
    obtain ⟨line, hparse⟩ := hdescent
    have hquiet : (Recovering.ofScan (.ofSource ("print " ++ Text.enquote x))).diagnostics = [] :=
      congrArg Parsed.diagnostics hparse
    obtain ⟨statements, hsource, heq, -⟩ := Strict.ofSource_of_ofScan hquiet
    have hstatements := heq.symm.trans (congrArg Parsed.statements hparse)
    obtain ⟨s, rfl, hs⟩ := List.map_eq_singleton_iff.1 hstatements
    obtain ⟨u, rfl, hu⟩ := Node.exists_literal_of_mapTokens hs
    have hkind : u.kind = .string := by rw [← u.kind_textOnLastLine, hu]
    have hlexeme : u.lexeme = Text.enquote x := by rw [← u.lexeme_textOnLastLine, hu]
    refine ⟨u.line, ?_⟩
    rw [parse, hsource, ← hkind, ← hlexeme]

end FrontEnd

/-! ## Sessions -/

/-- A statement that prints a literal prints its value, if it has the same one in all scopes. -/
theorem Run.printed_program {t : Token} {v : Value} (h : Evaluation.literal t = pure v)
    (detail : Nat) (scopes : Scopes Value) :
    (program detail [.print (.literal t)] scopes).printed = [v.toText] := by
  have hperformed : performed (.print (.literal t)) scopes = .ok (.null, [v.toText]) scopes := by
    simp only [performed, execute, Node.depthLimit, Evaluation.evaluate, h]
    rfl
  -- Such a statement is never too deep for a log.
  have hattempt : attempt detail (.print (.literal t)) scopes = .ok (.null, [v.toText]) scopes := by
    unfold attempt
    split
    · exact hperformed
    · exact hperformed
  have hprinted := congrArg Effect.printed
    (withoutNotes_statements_cons detail (.print (.literal t)) [] scopes .null)
  rw [hattempt] at hprinted
  exact hprinted

namespace Session

theorem printed_run_print (s : Session) (x : String) :
    (s.run ("print " ++ Text.enquote x)).printed = [x] := by
  obtain ⟨line, hparse⟩ := FrontEnd.exists_parse_print x s.frontEnd
  rw [run_printed, effect, hparse]
  exact Run.printed_program (Evaluation.literal_enquote x line) s.detail s.scopes

/-- **Every text can be written in a program, and what is written is the text.** Written between
quotes and with its quotes doubled, a text is scanned as one token without a diagnostic; this token
evaluates to the text, and a session with either front end prints it after `print`. Conversely, in
every scan and in every tree that a front end builds, a token that is a text evaluates to a text
that is written with the lexeme of the token. -/
theorem texts_read_back :
    (∀ x : String, Scan.Atomic .string (Text.enquote x) ∧
      (∀ line m, (Evaluation.evaluate Node.depthLimit
        (.literal ⟨.string, Text.enquote x, line⟩)).run m = .ok (.text x) m) ∧
      ∀ s : Session, (s.run ("print " ++ Text.enquote x)).printed = [x]) ∧
    ∀ (source : String) (t : Token),
      (t ∈ (Scan.ofSource source).tokens ∨
        ∃ frontEnd, ∃ n ∈ (FrontEnd.parse source frontEnd).statements, t ∈ n.tokens) →
      t.kind = .string →
      ∃ x, (∀ m, (Evaluation.evaluate Node.depthLimit (.literal t)).run m = .ok (.text x) m) ∧
        Text.enquote x = t.lexeme := by
  have hevaluate : ∀ x line m, (Evaluation.evaluate Node.depthLimit
      (.literal ⟨.string, Text.enquote x, line⟩)).run m = .ok (.text x) m := by
    intro x line m
    simp only [Node.depthLimit, Evaluation.evaluate, Evaluation.literal_enquote]
    rfl
  refine ⟨fun x => ⟨Scan.atomic_enquote x, hevaluate x, fun s => printed_run_print s x⟩, ?_⟩
  rintro source ⟨kind, lexeme, line⟩ hmem rfl
  have hwritten : ∃ x, lexeme = Text.enquote x := by
    rcases hmem with hscan | ⟨frontEnd, n, hn, ht⟩
    · rcases List.mem_append.1 hscan with hbody | hend
      · exact Scan.exists_enquote_of_mem hbody rfl
      · cases List.mem_singleton.1 hend
    · exact FrontEnd.exists_enquote_of_mem_parse hn ht rfl
  obtain ⟨x, rfl⟩ := hwritten
  exact ⟨x, hevaluate x line, rfl⟩

/-- A text with quotes inside and at its end, over two lines. The front ends have it on different
ones. -/
theorem texts_read_back_doubled_quotes :
    let x := "say \"hi\"\n\""
    let source := "print \"say \"\"hi\"\"\n\"\"\" == y"
    let token := fun line => (⟨.string, "\"say \"\"hi\"\"\n\"\"\"", line⟩ : Token)
    let Evaluates := fun t => ∃ y, (∀ m,
      (Evaluation.evaluate Node.depthLimit (.literal t)).run m = .ok (.text y) m) ∧
        Text.enquote y = t.lexeme
    Text.enquote x = (token 1).lexeme ∧
      (∀ s : Session, (s.run ("print " ++ Text.enquote x)).printed = [x]) ∧
      (∃ n ∈ (FrontEnd.parse source .grammar).statements, token 1 ∈ n.tokens) ∧
      Evaluates (token 1) ∧ token 2 ∈ (Scan.ofSource source).tokens ∧ Evaluates (token 2) := by
  intro x source token Evaluates
  have htree : ∃ n ∈ (FrontEnd.parse source .grammar).statements, token 1 ∈ n.tokens := by
    decide +kernel
  have hscan : token 2 ∈ (Scan.ofSource source).tokens := by decide +kernel
  exact ⟨by decide +kernel, (texts_read_back.1 x).2.2, htree,
    texts_read_back.2 source (token 1) (.inr ⟨.grammar, htree⟩) rfl, hscan,
    texts_read_back.2 source (token 2) (.inl hscan) rfl⟩

end Session

end Scriptlet
