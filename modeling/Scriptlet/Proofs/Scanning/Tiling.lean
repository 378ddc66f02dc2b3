import Scriptlet.Proofs.Scanning.Numerals

/-!
# Every source text has one cut

What the pieces of a source text are is said here without cutting it. `Piece.Maximal next p` says
that `p` is a lexeme, a blank, a comment, a stray character or a text that never closes, and that
the characters `next` after it do not go on with it. `Piece.Tiles ps cs` says that the characters
`cs` are the pieces `ps` put together, each of them maximal before the rest.

Cutting gives such pieces (`Piece.maximal_of_extent`, `Piece.tiles_ofChars`). Conversely a maximal
piece is cut wherever it stands, since the piece and the characters right after it decide alone
(`Piece.Maximal.extent_eq`). So a source text has one cut and no other
(`Piece.ofChars_eq_iff_tiles`), and its scan is made of the pieces of that cut, each in its place
(`Scan.ofSource_eq_placed`, `Scan.exists_tiles_ofSource`).
-/

namespace Scriptlet

/-! ## Numbers -/

namespace Lexeme

/-- The characters do not go on with a point and a digit. -/
def NoFraction (cs : List Char) : Prop := ∀ d after, cs = '.' :: d :: after → d.isDigit = false

theorem fractionLength_of_noFraction {cs : List Char} (h : NoFraction cs) :
    fractionLength cs = 0 := by
  unfold fractionLength
  split
  · next d after => rw [h d after rfl, if_neg Bool.false_ne_true]
  · rfl

theorem noFraction_or_point_mem (cs : List Char) :
    NoFraction cs ∨ '.' ∈ cs.take (fractionLength cs) := by
  by_cases hno : NoFraction cs
  · exact .inl hno
  · right
    simp only [NoFraction, not_forall, Bool.not_eq_false] at hno
    obtain ⟨d, after, rfl, hd⟩ := hno
    rw [fractionLength, if_pos hd, Nat.add_comm, List.take_succ_cons]
    exact List.mem_cons_self

theorem ends_drop_fractionLength {cs : List Char} (h : Ends Char.isDigit cs) :
    Ends Char.isDigit (cs.drop (fractionLength cs)) := by
  unfold fractionLength
  split
  · next d after =>
    by_cases hd : d.isDigit = true
    · rw [if_pos hd, Nat.add_comm, List.drop_succ_cons, List.drop_succ_cons]
      exact ends_drop_run _ _
    · rw [if_neg hd]
      exact h
  · exact h

theorem ends_drop_numberLength (cs : List Char) :
    Ends Char.isDigit (cs.drop (numberLength cs)) := by
  rw [numberLength, ← List.drop_drop]
  exact ends_drop_fractionLength (ends_drop_run _ _)

theorem noFraction_drop_numberLength {cs : List Char} (h : '.' ∉ cs.take (numberLength cs)) :
    NoFraction (cs.drop (numberLength cs)) := by
  rw [numberLength, List.take_add] at h
  rw [numberLength, ← List.drop_drop]
  rcases noFraction_or_point_mem (cs.drop (run Char.isDigit cs)) with hno | hmem
  · rw [fractionLength_of_noFraction hno]
    exact hno
  · exact absurd (List.mem_append_right _ hmem) h

end Lexeme

/-! ## What can be cut before what -/

namespace Piece

open Lexeme Text

/-- The characters that a token, a blank, a comment or a quoted text can start with. -/
def startsPiece (c : Char) : Bool :=
  (marks ++ pairs).any (c == ·.1) || ['/', '"', '.', ' ', '\t', '\r', '_'].contains c ||
    c.isDigit || isLetter c

/-- The pieces that can be cut before the characters `next`: each is one of its sort, and `next`
does not go on with what would make it longer. -/
inductive Maximal (next : List Char) : Piece → Prop
  | mark {c : Char} {k : Kind} (mem : (c, k) ∈ marks) : Maximal next ⟨.token k, [c]⟩
  | pair {c : Char} {k : Kind} (mem : (c, k) ∈ pairs) : Maximal next ⟨.token k, [c, '=']⟩
  | single {c : Char} {k : Kind} (mem : (c, k) ∈ singles) (ends : Ends (· == '=') next) :
      Maximal next ⟨.token k, [c]⟩
  | slash (ends : Ends (· == '/') next) : Maximal next ⟨.token .slash, ['/']⟩
  | dot (ends : Ends Char.isDigit next) : Maximal next ⟨.token .dot, ['.']⟩
  -- a number that has a fraction can be followed by another point and digit, as in `1.5.5`
  | number {cs : List Char} (numeral : Numeral.Simple cs) (ends : Ends Char.isDigit next)
      (whole : '.' ∉ cs → NoFraction next) : Maximal next ⟨.token .number, cs⟩
  | word {c : Char} {cs : List Char} (starts : isLetter c = true ∨ c = '_')
      (all : ∀ d ∈ cs, isWordChar d = true) (ends : Ends isWordChar next) :
      Maximal next ⟨.token (wordKind (c :: cs)), c :: cs⟩
  | string (inner : List Char) (ends : Ends (· == '"') next) :
      Maximal next ⟨.token .string, '"' :: (doubleQuotes inner ++ ['"'])⟩
  | blank {c : Char} (mem : c = ' ' ∨ c = '\t' ∨ c = '\r') : Maximal next ⟨.blank, [c]⟩
  -- what follows is the line break, or nothing
  | comment {cs : List Char} (inLine : '\n' ∉ cs) (ends : Ends (· != '\n') next) :
      Maximal next ⟨.comment, '/' :: '/' :: cs⟩
  -- `!` is the one character of a pair that is no token by itself
  | bang (ends : Ends (· == '=') next) : Maximal next ⟨.stray, ['!']⟩
  | stray {c : Char} (noPlace : startsPiece c = false) : Maximal next ⟨.stray, [c]⟩
  | unterminated (inner : List Char) (last : next = []) :
      Maximal next ⟨.unterminated, '"' :: doubleQuotes inner⟩

/-! ## What is cut is maximal -/

theorem stray_of_extent {c : Char} {rest : List Char} (h : (extent c rest).1 = .stray) :
    (c = '!' ∧ startsWith '=' rest = false) ∨ startsPiece c = false := by
  unfold extent withEqual at h
  split at h
  case h_13 =>
    split at h
    · cases h
    · next halone => exact .inl ⟨rfl, Bool.eq_false_iff.2 halone⟩
  case h_21 =>
    split at h
    · cases h
    split at h
    · cases h
    · next hdigit hword =>
      simp only [Bool.or_eq_true, beq_iff_eq, not_or] at hword
      right
      simp only [startsPiece, marks, pairs, List.cons_append, List.nil_append, List.any_cons,
        List.any_nil, List.contains_eq_mem, List.mem_cons, List.not_mem_nil, or_false, hword,
        hdigit, Bool.or_false, Bool.decide_or, Bool.or_eq_false_iff, beq_eq_false_iff_ne, ne_eq,
        decide_eq_false_iff_not]
      and_intros <;> assumption
  case h_10 | h_11 | h_12 | h_14 | h_15 | h_16 => split at h <;> cases h
  all_goals cases h

theorem maximal_of_extent {c : Char} {rest : List Char} {role : Role} {n : Nat}
    (h : extent c rest = (role, n)) : Maximal (rest.drop n) ⟨role, c :: rest.take n⟩ := by
  cases cut_of_extent h with
  | mark mem => exact .mark mem
  | pair mem equal =>
    obtain ⟨tail, rfl⟩ := startsWith_iff.1 equal
    exact .pair mem
  | single mem alone => exact .single mem (startsWith_eq_false_iff.1 alone)
  | slash isSlash alone =>
    subst isSlash
    exact .slash (startsWith_eq_false_iff.1 alone)
  | string isQuote closes =>
    subst isQuote
    obtain ⟨inner, htake, hends⟩ := exists_doubleQuotes_of_textLength? closes
    rw [htake]
    exact .string inner hends
  | number isDigit length =>
    subst length
    refine .number (simple_of_isDigit rest isDigit) (ends_drop_numberLength rest) ?_
    intro hpoint
    exact noFraction_drop_numberLength fun hmem => hpoint (List.mem_cons_of_mem _ hmem)
  | fraction isPoint digits length =>
    subst isPoint length
    refine .number (simple_of_point digits) (ends_drop_run _ rest) ?_
    intro hpoint
    exact absurd List.mem_cons_self hpoint
  | dot isPoint alone =>
    subst isPoint
    exact .dot (startsWithDigit_eq_false_iff.1 alone)
  | word starts length kind =>
    subst length kind
    exact .word starts (fun d hd => of_mem_take_run hd) (ends_drop_run _ rest)
  | blank mem => exact .blank mem
  | comment isSlash slash length =>
    subst isSlash length
    obtain ⟨tail, rfl⟩ := startsWith_iff.1 slash
    have hlength : commentLength ('/' :: tail) = commentLength tail + 1 := by
      simp [commentLength, run]
    rw [hlength, List.take_succ_cons, List.drop_succ_cons]
    refine .comment ?_ (ends_drop_run _ tail)
    intro hmem
    exact absurd (of_mem_take_run hmem) (by decide)
  | unterminated isQuote opens length =>
    subst isQuote length
    obtain ⟨inner, rfl⟩ := exists_doubleQuotes_of_textLength?_eq_none opens
    rw [List.take_length, List.drop_length]
    exact .unterminated inner rfl
  | stray =>
    obtain ⟨rfl, halone⟩ | hplace := stray_of_extent (congrArg Prod.fst h)
    · exact .bang (startsWith_eq_false_iff.1 halone)
    · exact .stray hplace

/-! ## What is maximal is cut -/

theorem extent_of_mem_marks {c : Char} {k : Kind} (h : (c, k) ∈ marks) (rest : List Char) :
    extent c rest = (.token k, 0) := by
  simp only [marks, List.mem_cons, Prod.mk.injEq, List.not_mem_nil, or_false] at h
  rcases h with ⟨rfl, rfl⟩ | ⟨rfl, rfl⟩ | ⟨rfl, rfl⟩ | ⟨rfl, rfl⟩ | ⟨rfl, rfl⟩ | ⟨rfl, rfl⟩ |
    ⟨rfl, rfl⟩ | ⟨rfl, rfl⟩ | ⟨rfl, rfl⟩ | ⟨rfl, rfl⟩
  all_goals rfl

theorem extent_of_mem_pairs {c : Char} {k : Kind} (h : (c, k) ∈ pairs) (rest : List Char) :
    extent c ('=' :: rest) = (.token k, 1) := by
  simp only [pairs, List.mem_cons, Prod.mk.injEq, List.not_mem_nil, or_false] at h
  rcases h with ⟨rfl, rfl⟩ | ⟨rfl, rfl⟩ | ⟨rfl, rfl⟩ | ⟨rfl, rfl⟩
  all_goals rfl

theorem extent_of_mem_singles {c : Char} {k : Kind} (h : (c, k) ∈ singles) {rest : List Char}
    (hends : Ends (· == '=') rest) : extent c rest = (.token k, 0) := by
  have halone := startsWith_eq_false_iff.2 hends
  simp only [singles, List.mem_cons, Prod.mk.injEq, List.not_mem_nil, or_false] at h
  rcases h with ⟨rfl, rfl⟩ | ⟨rfl, rfl⟩ | ⟨rfl, rfl⟩
  all_goals simp only [extent, withEqual, halone, Bool.false_eq_true, if_false]

theorem extent_of_startsPiece_eq_false {c : Char} (h : startsPiece c = false) (rest : List Char) :
    extent c rest = (.stray, 0) := by
  simp only [startsPiece, Bool.or_eq_false_iff] at h
  obtain ⟨⟨⟨hsigns, hothers⟩, hdigit⟩, hletter⟩ := h
  unfold extent
  split
  case h_21 =>
    have hunderscore : c ≠ '_' := by
      rintro rfl
      exact absurd hothers (by decide)
    simp [hdigit, hletter, hunderscore]
  case h_14 | h_15 | h_16 | h_17 | h_18 | h_19 => exact absurd hothers (by decide)
  all_goals exact absurd hsigns (by decide)

theorem extent_of_simple {cs next : List Char} (h : Numeral.Simple cs)
    (hends : Ends Char.isDigit next) (hwhole : '.' ∉ cs → NoFraction next) :
    ∃ c rest, cs = c :: rest ∧ extent c (rest ++ next) = (.token .number, rest.length) := by
  cases h with
  | whole hne hall =>
    obtain ⟨c, rest, rfl⟩ := List.exists_cons_of_ne_nil hne
    obtain ⟨hc, hrest⟩ := List.forall_mem_cons.1 hall
    have hpoint : '.' ∉ c :: rest := by
      intro hmem
      exact absurd (hall _ hmem) (by decide)
    have hrun : run Char.isDigit (rest ++ next) = rest.length := run_append hrest hends
    refine ⟨c, rest, rfl, ?_⟩
    rw [extent_of_isDigit _ hc, numberLength, hrun, List.drop_left,
      fractionLength_of_noFraction (hwhole hpoint), Nat.add_zero]
  | @fraction digits decimals hne hall hdecimal =>
    obtain ⟨d, decimals, rfl⟩ := List.exists_cons_of_ne_nil hne
    obtain ⟨hd, hdecimals⟩ := List.forall_mem_cons.1 hdecimal
    cases digits with
    | nil =>
      have hrun : run Char.isDigit (d :: decimals ++ next) = (d :: decimals).length :=
        run_append hdecimal hends
      have hstarts : startsWithDigit (d :: decimals ++ next) = true := hd
      refine ⟨'.', d :: decimals, rfl, ?_⟩
      simp only [extent, hstarts, if_true, hrun]
    | cons c rest =>
      obtain ⟨hc, hrest⟩ := List.forall_mem_cons.1 hall
      have hrun : run Char.isDigit (rest ++ '.' :: (d :: decimals ++ next)) = rest.length :=
        run_append hrest (ends_cons.2 rfl)
      have hfraction : fractionLength ('.' :: (d :: decimals ++ next)) = 2 + decimals.length := by
        rw [List.cons_append, fractionLength, if_pos hd, run_append hdecimals hends]
      refine ⟨c, rest ++ '.' :: d :: decimals, rfl, ?_⟩
      rw [extent_of_isDigit _ hc, numberLength, List.append_assoc, List.cons_append, hrun,
        List.drop_left, hfraction]
      simp only [List.length_append, List.length_cons, Prod.mk.injEq, true_and]
      omega

/-- A maximal piece is cut, whatever it is the start of. -/
theorem Maximal.extent_eq {next : List Char} {p : Piece} (h : Maximal next p) :
    ∃ c rest, p.text = c :: rest ∧ extent c (rest ++ next) = (p.role, rest.length) := by
  cases h with
  | mark mem => exact ⟨_, [], rfl, extent_of_mem_marks mem next⟩
  | pair mem => exact ⟨_, ['='], rfl, extent_of_mem_pairs mem next⟩
  | single mem ends => exact ⟨_, [], rfl, extent_of_mem_singles mem ends⟩
  | slash ends =>
    refine ⟨'/', [], rfl, ?_⟩
    simp only [extent, List.nil_append, startsWith_eq_false_iff.2 ends, Bool.false_eq_true,
      if_false, List.length_nil]
  | dot ends =>
    refine ⟨'.', [], rfl, ?_⟩
    simp only [extent, List.nil_append, startsWithDigit_eq_false_iff.2 ends, Bool.false_eq_true,
      if_false, List.length_nil]
  | number numeral ends whole => exact extent_of_simple numeral ends whole
  | @word c cs starts all ends =>
    have hlength : wordLength (cs ++ next) = cs.length := run_append all ends
    refine ⟨c, cs, rfl, ?_⟩
    rw [extent_of_isLetter _ starts, hlength, List.take_left]
  | string inner ends =>
    refine ⟨'"', doubleQuotes inner ++ ['"'], rfl, ?_⟩
    have hlength := textLength?_doubleQuotes_append inner ends
    rw [List.append_assoc, List.singleton_append]
    simp only [extent, hlength, List.length_append, List.length_singleton]
  | blank mem =>
    refine ⟨_, [], rfl, ?_⟩
    rcases mem with rfl | rfl | rfl
    all_goals rfl
  | @comment cs inLine ends =>
    have hall : ∀ d ∈ '/' :: cs, (d != '\n') = true := by
      intro d hd
      rcases List.mem_cons.1 hd with rfl | hd
      · decide
      · refine bne_iff_ne.2 ?_
        rintro rfl
        exact inLine hd
    have hlength : commentLength ('/' :: cs ++ next) = ('/' :: cs).length := run_append hall ends
    have hslash : startsWith '/' ('/' :: cs ++ next) = true := rfl
    refine ⟨'/', '/' :: cs, rfl, ?_⟩
    simp only [extent, hslash, if_true, hlength]
  | bang ends =>
    refine ⟨'!', [], rfl, ?_⟩
    simp only [extent, withEqual, List.nil_append, startsWith_eq_false_iff.2 ends,
      Bool.false_eq_true, if_false, List.length_nil]
  | stray noPlace => exact ⟨_, [], rfl, extent_of_startsPiece_eq_false noPlace next⟩
  | unterminated inner last =>
    subst last
    refine ⟨'"', doubleQuotes inner, rfl, ?_⟩
    simp only [extent, List.append_nil, textLength?_doubleQuotes]

/-! ## The cut of a source text -/

/-- The characters are these pieces put together, each maximal before the rest. -/
inductive Tiles : List Piece → List Char → Prop
  | nil : Tiles [] []
  | cons {p : Piece} {ps : List Piece} {next : List Char} (maximal : Maximal next p)
      (rest : Tiles ps next) : Tiles (p :: ps) (p.text ++ next)

theorem tiles_ofChars (cs : List Char) : Tiles (ofChars cs) cs := by
  induction cs using ofChars.induct with
  | case1 =>
    rw [ofChars]
    exact .nil
  | case2 c rest cut =>
    rename_i ih
    have htext : c :: rest.take cut.2 ++ rest.drop cut.2 = c :: rest := by
      rw [List.cons_append, List.take_append_drop]
    rw [ofChars, ← htext]
    exact .cons (maximal_of_extent rfl) ih

theorem Tiles.ofChars_eq {ps : List Piece} {cs : List Char} (h : Tiles ps cs) :
    ofChars cs = ps := by
  induction h with
  | nil => rw [ofChars]
  | @cons p ps next maximal _ ih =>
    obtain ⟨c, rest, htext, hextent⟩ := maximal.extent_eq
    rw [htext, List.cons_append, ofChars, hextent, List.take_left, List.drop_left, ih, ← htext]

/-- Cutting gives the one list of pieces that tiles the characters. -/
theorem ofChars_eq_iff_tiles {ps : List Piece} {cs : List Char} :
    ofChars cs = ps ↔ Tiles ps cs := by
  constructor
  · rintro rfl
    exact tiles_ofChars cs
  · exact Tiles.ofChars_eq

theorem Tiles.flatMap_text {ps : List Piece} {cs : List Char} (h : Tiles ps cs) :
    ps.flatMap (·.text) = cs := by
  rw [← h.ofChars_eq, flatMap_text_ofChars]

theorem Maximal.eq_nil_of_unterminated {next : List Char} {p : Piece} (h : Maximal next p)
    (hrole : p.role = .unterminated) : next = [] := by
  cases h with
  | unterminated _ last => exact last
  | _ => cases hrole

/-- Only the last piece can be a text that never closes. -/
theorem Tiles.ne_unterminated {ps : List Piece} {cs : List Char} (h : Tiles ps cs) :
    ∀ p ∈ ps.dropLast, p.role ≠ .unterminated := by
  induction h with
  | nil => simp
  | @cons p ps next maximal rest ih =>
    cases ps with
    | nil => simp
    | cons q qs =>
      rw [List.dropLast_cons_cons]
      refine List.forall_mem_cons.2 ⟨?_, ih⟩
      intro hrole
      obtain rfl := maximal.eq_nil_of_unterminated hrole
      have hnil := rest.ofChars_eq
      rw [ofChars] at hnil
      cases hnil

/-! ## Pieces in their place -/

/-- A piece and the characters before it. -/
structure Placed where
  before : List Char
  piece : Piece

/-- The pieces, each with the characters before it. -/
def placed (before : List Char) : List Piece → List Placed
  | [] => []
  | p :: ps => ⟨before, p⟩ :: placed (before ++ p.text) ps

theorem map_piece_placed (before : List Char) (ps : List Piece) :
    (placed before ps).map Placed.piece = ps := by
  induction ps generalizing before with
  | nil => rfl
  | cons p ps ih => rw [placed, List.map_cons, ih]

namespace Placed

/-- The token of a piece, on the line of its last character. -/
def token? (p : Placed) : Option Token :=
  match p.piece.role with
  | .token k =>
      some ⟨k, String.ofList p.piece.text,
        1 + Scan.lineBreaks (p.before ++ p.piece.text.dropLast)⟩
  | _ => none

/-- The diagnostic about a piece, on the line of its first character. -/
def diagnostic? (p : Placed) : Option Diagnostic :=
  match p.piece.role with
  | .stray =>
      some (.atLine (1 + Scan.lineBreaks p.before)
        ("Unexpected character: " ++ String.ofList p.piece.text) .compile)
  | .unterminated =>
      some (.atLine (1 + Scan.lineBreaks p.before) "Unterminated string." .compile)
  | _ => none

end Placed

/-- The kind and the lexeme of a token. -/
def lexeme? (p : Piece) : Option (Kind × String) :=
  match p.role with
  | .token k => some (k, String.ofList p.text)
  | _ => none

/-- What is wrong with a piece. -/
def complaint? (p : Piece) : Option String :=
  match p.role with
  | .stray => some ("Unexpected character: " ++ String.ofList p.text)
  | .unterminated => some "Unterminated string."
  | _ => none

theorem map_token? (p : Placed) :
    p.token?.map (fun t => (t.kind, t.lexeme)) = p.piece.lexeme? := by
  unfold Placed.token? lexeme?
  split <;> rfl

theorem map_diagnostic? (p : Placed) : p.diagnostic?.map (·.message) = p.piece.complaint? := by
  unfold Placed.diagnostic? complaint?
  split <;> rfl

end Piece

namespace Scan

/-- A scan is made of the pieces in their place. -/
theorem ofPieces_eq_placed (before : List Char) (ps : List Piece) :
    ofPieces (1 + lineBreaks before) ps =
      ⟨(Piece.placed before ps).filterMap Piece.Placed.token?,
        1 + lineBreaks (before ++ ps.flatMap (·.text)),
        (Piece.placed before ps).filterMap Piece.Placed.diagnostic?⟩ := by
  induction ps generalizing before with
  | nil => rw [ofPieces, List.flatMap_nil, List.append_nil]; rfl
  | cons p ps ih =>
    rw [ofPieces, Int.add_assoc, ← lineBreaks_append, ih, Piece.placed, List.filterMap_cons,
      List.filterMap_cons, List.flatMap_cons, List.append_assoc]
    simp only [add, Piece.Placed.token?, Piece.Placed.diagnostic?, lineBreaks_append,
      Int.add_assoc]
    cases p.role <;> rfl

theorem ofSource_eq_placed (source : String) :
    ofSource source =
      let placed := Piece.placed [] (Piece.ofChars source.toList)
      ⟨placed.filterMap Piece.Placed.token?, 1 + lineBreaks source.toList,
        placed.filterMap Piece.Placed.diagnostic?⟩ := by
  have hscan := ofPieces_eq_placed [] (Piece.ofChars source.toList)
  rw [List.nil_append, Piece.flatMap_text_ofChars] at hscan
  exact hscan

/-- **Scanning loses nothing and cuts every piece as long as it can be.** There is one list of
pieces that tiles the source text and no other. Put together the pieces are the source text; only
the last one can be a text that never closes; the tokens are the lexemes among them, in order, and
the end; the diagnostics are about the stray characters and the text that never closes, in order,
one each, and there are no others. -/
theorem exists_tiles_ofSource (source : String) :
    ∃ ps : List Piece, (∀ qs, Piece.Tiles qs source.toList ↔ qs = ps) ∧
      ps.flatMap (·.text) = source.toList ∧
      (∀ p ∈ ps.dropLast, p.role ≠ .unterminated) ∧
      (ofSource source).tokens.map (fun t => (t.kind, t.lexeme)) =
        ps.filterMap Piece.lexeme? ++ [(.endOfFile, "")] ∧
      (ofSource source).diagnostics.map (·.message) = ps.filterMap Piece.complaint? := by
  have htiles := Piece.tiles_ofChars source.toList
  have hpieces := Piece.map_piece_placed [] (Piece.ofChars source.toList)
  refine ⟨Piece.ofChars source.toList, ?_, htiles.flatMap_text, htiles.ne_unterminated, ?_, ?_⟩
  · intro qs
    rw [← Piece.ofChars_eq_iff_tiles, eq_comm]
  · conv => rhs; rw [← hpieces, List.filterMap_map]
    rw [tokens, List.map_append, ofSource_eq_placed, List.map_filterMap]
    simp only [Piece.map_token?, Function.comp_def]
    rfl
  · conv => rhs; rw [← hpieces, List.filterMap_map]
    rw [ofSource_eq_placed, List.map_filterMap]
    simp only [Piece.map_diagnostic?, Function.comp_def]

example : (ofSource "7..5!\"a\"\"b").tokens.map (·.lexeme) = ["7", ".", ".5", ""] := by
  decide +kernel

end Scan

end Scriptlet
