import Scriptlet.FrontEnd
import Scriptlet.Proofs.FrontEnd.Statements

/-!
# The front ends agree

A program that the recovering front end takes without a diagnostic is taken by the strict one, with
the same trees (`parse_grammar_of_parse_descent`). The converse holds with three exceptions, and no
other (`parse_descent_of_parse_grammar`).

Tokens and trees are compared apart. The tokens are compared by walking the source: what is skipped
is skipped by both, and a token that one of them cuts is cut by the other (`find_of_extent`,
`extent_of_find`). So a source that is scanned without a diagnostic has a successful reading as soon
as its tokens make statements (`exists_tokens`), and the tokens of a successful reading are those of
the scan (`scan_of_run`). The trees are compared through the grammar: the statements that one front
end makes of the tokens are spelled by them, and the other reads back what is spelled
(`Recovering.writes_of_read` and `readTokens?_of_writes`; `writes_of_run` and
`Recovering.read_writes`).

The front ends place texts on different lines: one on the line of the first character, the other on
the line of the last (`Token.textOnLastLine`). All other tokens have the same line for both.
-/

namespace Scriptlet

namespace Token

/-- The token on the line of its last character, if it was on the line of its first. -/
def onLastLine (t : Token) : Token := { t with line := t.line + Scan.lineBreaks t.lexeme.toList }

theorem onLastLine_eq_self {t : Token} (h : '\n' ∉ t.lexeme.toList) : t.onLastLine = t := by
  rw [onLastLine, Scan.lineBreaks_eq_zero h, Int.add_zero]

/-- The token on the line of its last character if it is a text. -/
def textOnLastLine (t : Token) : Token := if t.kind = .string then t.onLastLine else t

/-- The token on the line of its first character, if it is a text on the line of its last. -/
def textOnFirstLine (t : Token) : Token :=
  if t.kind = .string then { t with line := t.line - Scan.lineBreaks t.lexeme.toList } else t

theorem kind_textOnLastLine (t : Token) : t.textOnLastLine.kind = t.kind := by
  unfold textOnLastLine
  split <;> rfl

theorem lexeme_textOnLastLine (t : Token) : t.textOnLastLine.lexeme = t.lexeme := by
  unfold textOnLastLine
  split <;> rfl

theorem kind_textOnFirstLine (t : Token) : t.textOnFirstLine.kind = t.kind := by
  unfold textOnFirstLine
  split <;> rfl

theorem textOnLastLine_textOnFirstLine (t : Token) : t.textOnFirstLine.textOnLastLine = t := by
  unfold textOnLastLine
  rw [kind_textOnFirstLine]
  split
  · next hstring =>
    rw [textOnFirstLine, if_pos hstring]
    simp only [onLastLine, Int.sub_add_cancel]
  · next hstring => exact if_neg hstring

theorem textOnFirstLine_textOnLastLine (t : Token) : t.textOnLastLine.textOnFirstLine = t := by
  unfold textOnFirstLine
  rw [kind_textOnLastLine]
  split
  · next hstring =>
    rw [textOnLastLine, if_pos hstring]
    simp only [onLastLine, Int.add_sub_cancel]
  · next hstring => exact if_neg hstring

end Token

/-- A break is cut alone. -/
theorem Piece.length_of_extent_newline {c : Char} {rest : List Char} {n : Nat}
    (h : extent c rest = (.token .newline, n)) : n = 0 := by
  generalize hk : Kind.newline = k at h
  cases cut_of_extent h with
  | mark | single => rfl
  | pair hmem =>
    subst hk
    simp [pairs] at hmem
  | word _ _ hword => exact absurd (hk.trans hword).symm (wordKind_ne _ (by decide) (by decide))
  | _ => cases hk

/-- Where a scan places the token that is cut at a place. -/
theorem Token.textOnLastLine_of_extent {c : Char} {rest : List Char} {k : Kind} {n : Nat}
    (h : Piece.extent c rest = (.token k, n)) (line : Int) :
    Token.textOnLastLine ⟨k, String.ofList (c :: rest.take n), line⟩ =
      ⟨k, String.ofList (c :: rest.take n),
        line + Scan.lineBreaks (c :: rest.take n).dropLast⟩ := by
  by_cases hstring : k = .string
  · subst hstring
    rw [textOnLastLine, if_pos rfl, onLastLine, String.toList_ofList,
      Piece.lineBreaks_dropLast h (by decide)]
  · have hbreak : '\n' ∉ (c :: rest.take n).dropLast := by
      by_cases hnewline : k = .newline
      · subst hnewline
        simp [Piece.length_of_extent_newline h]
      · exact fun hmem =>
          Piece.break_notMem_of_extent h hnewline hstring (List.dropLast_subset _ hmem)
    rw [textOnLastLine, if_neg hstring, Scan.lineBreaks_eq_zero hbreak, Int.add_zero]

namespace FrontEnd.Strict

/-! ## Tokens -/

/-- What is neither skipped nor complained about is a token. -/
theorem exists_extent {line : Int} {c : Char} {rest : List Char} (hskip : skipped? c rest = none)
    (hscan : (Scan.ofChars line (c :: rest)).diagnostics = []) :
    ∃ k n, Piece.extent c rest = (.token k, n) := by
  rcases hextent : Piece.extent c rest with ⟨role, n⟩
  have hcut := Piece.cut_of_extent hextent
  rw [Scan.ofChars_cons, hextent] at hscan
  cases role with
  | token k => exact ⟨k, n, rfl⟩
  | blank =>
    cases hcut with
    | blank hblank => rcases hblank with rfl | rfl | rfl <;> cases hskip
  | comment =>
    cases hcut with
    | comment hslash hsecond =>
      rw [hslash] at hskip
      exact absurd hsecond (by simp [startsWith_slash_of_skipped? hskip])
  | stray => cases hscan
  | unterminated => cases hscan

theorem isKeptWord_of_extent {c : Char} {rest : List Char} {k : Kind} {n : Nat}
    (h : Piece.extent c rest = (.token k, n)) (line : Int) :
    isKeptWord ⟨k, String.ofList (c :: rest.take n), line⟩ = false := by
  by_cases hk : k = .identifier
  · subst hk
    rw [isKeptWord, Piece.keyword?_of_extent h]
    rfl
  · simp [isKeptWord, hk]

/-- The tokens of a scan without a diagnostic, with texts on their first line, have a successful
reading if they make statements. No word of the language is a name among them. -/
theorem exists_tokens {line : Int} {cs : List Char}
    (hscan : (Scan.ofChars line cs).diagnostics = []) :
    ∃ tokens, (Scan.ofChars line cs).body = tokens.map Token.textOnLastLine ∧
      (∀ t ∈ tokens, isKeptWord t = false) ∧
      ∀ phase statements, Phase.readTokens? phase tokens = some statements →
        Run phase line cs tokens statements := by
  -- A piece can be long, so the next place is not the tail: the induction is on the length.
  induction hlength : cs.length using Nat.strongRecOn generalizing line cs with
  | ind length ih =>
  subst hlength
  cases cs with
  | nil =>
    rw [Scan.ofChars_nil]
    exact ⟨[], rfl, by simp, fun phase statements hends => .done hends⟩
  | cons c rest =>
    have hshorter : ∀ n, (rest.drop n).length < (c :: rest).length := by
      intro n
      simp only [List.length_drop, List.length_cons]
      omega
    cases hskip : skipped? c rest with
    | some n =>
      rw [Scan.ofChars_skipped hskip] at hscan ⊢
      obtain ⟨tokens, hbody, hkept, hrun⟩ := ih _ (hshorter n) hscan rfl
      exact ⟨tokens, hbody, hkept, fun phase statements h => .skip hskip (hrun phase statements h)⟩
    | none =>
      obtain ⟨k, n, hextent⟩ := exists_extent hskip hscan
      rw [Scan.ofChars_token hextent] at hscan ⊢
      obtain ⟨tokens, hbody, hkept, hrun⟩ := ih _ (hshorter n) hscan rfl
      refine ⟨⟨k, String.ofList (c :: rest.take n), line⟩ :: tokens, ?_, ?_, ?_⟩
      · simp only [List.map_cons, hbody, Token.textOnLastLine_of_extent hextent]
      · intro t ht
        rcases List.mem_cons.1 ht with rfl | ht
        · exact isKeptWord_of_extent hextent line
        · exact hkept t ht
      · intro phase statements h
        obtain ⟨after, ended, more, hstep, hmore, rfl⟩ := readTokens?_cons_eq_some_iff.1 h
        exact .token (find_of_extent hskip hextent (takes_of_step hstep)) hstep
          (hrun after more hmore)

/-- The tokens of a successful reading without kept words are those of the scan. -/
theorem scan_of_run {phase : Phase} {line : Int} {cs : List Char} {tokens : List Token}
    {statements : List Node} (h : Run phase line cs tokens statements)
    (hkept : ∀ t ∈ tokens, isKeptWord t = false) (hplain : Plain cs) :
    (Scan.ofChars line cs).diagnostics = [] ∧
      (Scan.ofChars line cs).body = tokens.map Token.textOnLastLine := by
  induction h with
  | done =>
    rw [Scan.ofChars_nil]
    exact ⟨rfl, rfl⟩
  | @skip phase line c rest n tokens statements hskips hrun ih =>
    rw [Scan.ofChars_skipped hskips]
    exact ih hkept (hplain.drop (n + 1))
  | @token phase after line c rest k n tokens ended statements hfinds hsteps hrun ih =>
    have hextent : Piece.extent c rest = (.token k, n) := by
      refine extent_of_find hfinds hplain ?_ ?_
      · rintro rfl
        simpa [isKeptWord] using hkept _ List.mem_cons_self
      · rintro rfl
        exact head?_ne_of_run hrun (expected_of_step_string rfl hsteps)
    obtain ⟨hscan, hbody⟩ := ih (fun t ht => hkept t (List.mem_cons_of_mem _ ht))
      (hplain.drop (n + 1))
    rw [Scan.ofChars_token hextent]
    refine ⟨hscan, ?_⟩
    simp only [List.map_cons, hbody, Token.textOnLastLine_of_extent hextent]

/-! ## Trees -/

/-- The strict front end takes what the recovering one takes, with the same trees. Of their
tokens only texts go over several lines. -/
theorem ofSource_of_ofScan {source : String}
    (h : (Recovering.ofScan (.ofSource source)).diagnostics = []) :
    ∃ statements, ofSource source = ⟨statements, []⟩ ∧
      (Recovering.ofScan (.ofSource source)).statements =
        statements.map (Node.mapTokens Token.textOnLastLine) ∧
      ∀ s ∈ statements, ∀ t ∈ s.tokens, t.kind ≠ .string → '\n' ∉ t.lexeme.toList := by
  obtain ⟨hscan, hquiet⟩ := List.append_eq_nil_iff.1 h
  obtain ⟨tokens, hbody, hkept, hrun⟩ := exists_tokens hscan
  obtain ⟨hwrites, hcanonical⟩ := Recovering.writes_of_read (.between (.inl rfl)) trivial hquiet
  -- Moved back to their first lines, the tokens of the scan spell the statements moved back.
  have htokens : (Scan.ofSource source).body.map Token.textOnFirstLine = tokens := by
    rw [show (Scan.ofSource source).body = _ from hbody, List.map_map]
    exact List.map_id'' Token.textOnFirstLine_textOnLastLine tokens
  have hmoved := hwrites.mapTokens Token.kind_textOnFirstLine
  rw [List.nil_append, htokens] at hmoved
  have hcanonical' := List.forall_mem_map.2 fun s hs =>
    (hcanonical s hs).mapTokens Token.kind_textOnFirstLine
  refine ⟨_, ofSource_eq_iff.2 ⟨tokens, hrun _ _ (readTokens?_of_writes hmoved hcanonical'), hkept⟩,
    ?_, ?_⟩
  · rw [List.map_map]
    exact (List.map_id'' (Node.mapTokens_leftInverse Token.textOnLastLine_textOnFirstLine) _).symm
  · intro s hs t ht hstring
    obtain ⟨us, hspells, hsub⟩ := hmoved.exists_spells s hs
    have hmem := hspells.mem_of_mem_tokens ht
    have hscanned : t.textOnLastLine ∈ (Scan.ofChars 1 source.toList).body := by
      rw [hbody]
      exact List.mem_map_of_mem (hsub t hmem)
    obtain ⟨c, rest, n, hextent, hlexeme⟩ := Scan.exists_extent_of_mem hscanned
    rw [Token.kind_textOnLastLine] at hextent
    rw [Token.lexeme_textOnLastLine] at hlexeme
    have hnewline : t.kind ≠ .newline := by
      intro hk
      have hinside := ((hcanonical' s hs).inner hspells t hmem).1
      rw [hk] at hinside
      cases hinside
    rw [hlexeme, String.toList_ofList]
    exact Piece.break_notMem_of_extent hextent hnewline hstring

end FrontEnd.Strict

namespace FrontEnd

open Strict (Glued)

/-- **What the descent front end takes, the grammar front end takes with the same trees.** Only the
lines of tokens differ, by the line breaks in their lexemes, and only texts have any. -/
theorem parse_grammar_of_parse_descent (source : String)
    (h : (parse source .descent).diagnostics = []) :
    (parse source .grammar).diagnostics = [] ∧
      (parse source .descent).statements =
        (parse source .grammar).statements.map (Node.mapTokens Token.onLastLine) ∧
      ∀ s ∈ (parse source .grammar).statements, ∀ t ∈ s.tokens,
        t.onLastLine ≠ t → t.kind = .string := by
  obtain ⟨statements, hparse, heq, hbreaks⟩ := Strict.ofSource_of_ofScan h
  have hlines : ∀ s ∈ statements, ∀ t ∈ s.tokens, t.kind ≠ .string → t.onLastLine = t :=
    fun s hs t ht hstring => Token.onLastLine_eq_self (hbreaks s hs t ht hstring)
  simp only [parse, hparse, heq, true_and]
  refine ⟨List.map_congr_left fun s hs => Node.mapTokens_congr fun t ht => ?_, ?_⟩
  · unfold Token.textOnLastLine
    split
    · rfl
    · next hstring => exact (hlines s hs t ht hstring).symm
  · intro s hs t ht hmoved
    by_contra hstring
    exact hmoved (hlines s hs t ht hstring)

/-- A text that spans lines is on its last line for one front end and on its first for the other. -/
theorem parse_grammar_text_over_lines :
    (parse "print \"a\nb\" == x // two lines\n" .descent).diagnostics = [] ∧
      (parse "print \"a\nb\" == x // two lines\n" .descent).statements =
        (parse "print \"a\nb\" == x // two lines\n" .grammar).statements.map
          (Node.mapTokens Token.onLastLine) :=
  ⟨by decide +kernel, (parse_grammar_of_parse_descent _ (by decide +kernel)).2.1⟩

/-- **What the grammar front end takes and the descent front end does not** holds an operator that
runs on into a word, a numeral that is no digit, or an expression that is nested too deeply. -/
theorem parse_descent_of_parse_grammar (source : String)
    (h : (parse source .grammar).diagnostics = []) :
    (parse source .descent).diagnostics = [] ∨
      Glued source.toList ∨ (∃ c ∈ source.toList, Text.isNumeral c = true) ∨
      ∃ d ∈ (parse source .descent).diagnostics, d.message = "Expression nested too deeply." := by
  by_cases hglued : Glued source.toList
  · exact .inr (.inl hglued)
  by_cases hnumeral : ∃ c ∈ source.toList, Text.isNumeral c = true
  · exact .inr (.inr (.inl hnumeral))
  have hplain : Strict.Plain source.toList :=
    ⟨hglued, fun c hc => Bool.eq_false_iff.2 fun hn => hnumeral ⟨c, hc, hn⟩⟩
  have hparse : Strict.ofSource source = ⟨(parse source .grammar).statements, []⟩ := by
    rw [← h]
    rfl
  obtain ⟨tokens, hrun, hkept⟩ := Strict.ofSource_eq_iff.1 hparse
  obtain ⟨hscan, hbody⟩ := Strict.scan_of_run hrun hkept hplain
  obtain ⟨hwrites, hcanonical⟩ := Strict.writes_of_run hrun
  have hmoved := hwrites.mapTokens Token.kind_textOnLastLine
  rw [← hbody] at hmoved
  have hcanonical' := List.forall_mem_map.2 fun s hs =>
    (hcanonical s hs).mapTokens Token.kind_textOnLastLine
  rcases Recovering.read_writes hmoved hcanonical' (Scan.ofSource source).final with
    ⟨-, hread⟩ | ⟨-, t, ht⟩
  · refine .inl (List.append_eq_nil_iff.2 ⟨hscan, ?_⟩)
    exact (congrArg (fun events => (Recovering.ofEvents events).diagnostics) hread).trans
      (congrArg Parsed.diagnostics (Recovering.ofEvents_map_statement _))
  · have hmem := Recovering.mem_diagnostics_of_complaint ht
    exact .inr (.inr (.inr ⟨_, List.mem_append_right _ hmem, rfl⟩))

/-- A text with doubled quotes is taken by both. -/
theorem parse_descent_doubled_quotes :
    (parse "x = \"a \"\"b\"\"\" or not null" .grammar).diagnostics = [] ∧
      ((parse "x = \"a \"\"b\"\"\" or not null" .descent).diagnostics = [] ∨
        Glued "x = \"a \"\"b\"\"\" or not null".toList ∨
        (∃ c ∈ "x = \"a \"\"b\"\"\" or not null".toList, Text.isNumeral c = true) ∨
        ∃ d ∈ (parse "x = \"a \"\"b\"\"\" or not null" .descent).diagnostics,
          d.message = "Expression nested too deeply.") :=
  ⟨by decide +kernel, parse_descent_of_parse_grammar _ (by decide +kernel)⟩

/-! Each exception is one. -/

example :
    (parse "1 andx" .grammar).diagnostics = [] ∧ (parse "1 andx" .descent).diagnostics ≠ [] := by
  decide +kernel

example : (parse "½" .grammar).diagnostics = [] ∧ (parse "½" .descent).diagnostics ≠ [] := by
  decide +kernel

example :
    let source := String.ofList (List.replicate 70 '(' ++ '1' :: List.replicate 70 ')')
    (parse source .grammar).diagnostics = [] ∧ (parse source .descent).diagnostics ≠ [] := by
  decide +kernel

end FrontEnd

end Scriptlet
