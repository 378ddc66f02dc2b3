import Scriptlet.Proofs.Scanning.Tiling

/-!
# Scanning a source text in parts

A line break ends every piece but a quoted text (`Piece.Maximal.append_break`). So the pieces of a
source text, a line break and the pieces of what follows tile the whole
(`Piece.Tiles.append_break`), and since there is one cut only, the whole is cut that way; only a
text that never closes would go on. Lines add up (`Scan.ofPieces_append`), and the scan of what
follows is what it would be on its own, some lines later (`Scan.ofPieces_later`).
-/

namespace Scriptlet

/-! ## Pieces before a line break -/

namespace Lexeme

theorem Ends.append_break {p : Char → Bool} {cs : List Char} (h : Ends p cs)
    (hp : p '\n' = false) (ds : List Char) : Ends p (cs ++ '\n' :: ds) := by
  cases cs with
  | nil => exact ends_cons.2 hp
  | cons c rest => exact ends_cons.2 (ends_cons.1 h)

theorem NoFraction.append_break {cs : List Char} (h : NoFraction cs) (ds : List Char) :
    NoFraction (cs ++ '\n' :: ds) := by
  intro d after heq
  rcases cs with _ | ⟨c, _ | ⟨e, rest⟩⟩
  · cases heq
  · cases heq
    rfl
  · cases heq
    exact h d rest rfl

end Lexeme

namespace Piece

/-- A line break ends every piece but a text that does not close. -/
theorem Maximal.append_break {next : List Char} {p : Piece} (h : Maximal next p)
    (hrole : p.role ≠ .unterminated) (ds : List Char) : Maximal (next ++ '\n' :: ds) p := by
  cases h with
  | mark mem => exact .mark mem
  | pair mem => exact .pair mem
  | single mem ends => exact .single mem (ends.append_break rfl ds)
  | slash ends => exact .slash (ends.append_break rfl ds)
  | dot ends => exact .dot (ends.append_break rfl ds)
  | number numeral ends whole =>
    exact .number numeral (ends.append_break rfl ds) fun hpoint => (whole hpoint).append_break ds
  | word starts all ends => exact .word starts all (ends.append_break (by decide) ds)
  | string inner ends => exact .string inner (ends.append_break rfl ds)
  | blank mem => exact .blank mem
  | comment inLine ends => exact .comment inLine (ends.append_break rfl ds)
  | bang ends => exact .bang (ends.append_break rfl ds)
  | stray noPlace => exact .stray noPlace
  | unterminated => exact absurd rfl hrole

/-- The tiles of a source text in which every text closes stay when a line break and more follow. -/
theorem Tiles.append_break {ps qs : List Piece} {cs ds : List Char} (h : Tiles ps cs)
    (hclosed : ∀ p ∈ ps, p.role ≠ .unterminated) (hmore : Tiles qs ds) :
    Tiles (ps ++ ⟨.token .newline, ['\n']⟩ :: qs) (cs ++ '\n' :: ds) := by
  induction h with
  | nil => exact .cons (.mark (by decide)) hmore
  | cons maximal _ ih =>
    obtain ⟨hfirst, hrest⟩ := List.forall_mem_cons.1 hclosed
    rw [List.cons_append, List.append_assoc]
    exact .cons (maximal.append_break hfirst ds) (ih hrest)

theorem ofChars_append_break {cs : List Char} (h : ∀ p ∈ ofChars cs, p.role ≠ .unterminated)
    (ds : List Char) :
    ofChars (cs ++ '\n' :: ds) = ofChars cs ++ ⟨.token .newline, ['\n']⟩ :: ofChars ds :=
  ((tiles_ofChars cs).append_break h (tiles_ofChars ds)).ofChars_eq

end Piece

/-! ## Scans of parts -/

/-- A token some lines later. -/
def Token.later (k : Int) (t : Token) : Token := { t with line := t.line + k }

/-- A diagnostic some lines later. -/
def Diagnostic.later (k : Int) (d : Diagnostic) : Diagnostic := { d with line := d.line + k }

namespace Scan

/-- One scan after another. -/
def append (a b : Scan) : Scan := ⟨a.body ++ b.body, b.lastLine, a.diagnostics ++ b.diagnostics⟩

/-- A scan some lines later. -/
def later (k : Int) (s : Scan) : Scan :=
  ⟨s.body.map (Token.later k), s.lastLine + k, s.diagnostics.map (Diagnostic.later k)⟩

theorem add_append (line : Int) (p : Piece) (a b : Scan) :
    add line p (a.append b) = (add line p a).append b := by
  unfold add
  split <;> rfl

theorem ofPieces_append (line : Int) (ps qs : List Piece) :
    ofPieces line (ps ++ qs) =
      (ofPieces line ps).append (ofPieces (line + lineBreaks (ps.flatMap (·.text))) qs) := by
  induction ps generalizing line with
  | nil => simp [ofPieces, append, lineBreaks]
  | cons p ps ih =>
    rw [List.cons_append, ofPieces, ih, add_append, ofPieces, List.flatMap_cons, lineBreaks_append,
      Int.add_assoc]

theorem add_later (line k : Int) (p : Piece) (s : Scan) :
    add (line + k) p (s.later k) = (add line p s).later k := by
  unfold add
  split
  · simp only [later, List.map_cons, Token.later, Int.add_right_comm]
  all_goals rfl

theorem ofPieces_later (line k : Int) (ps : List Piece) :
    ofPieces (line + k) ps = (ofPieces line ps).later k := by
  induction ps generalizing line with
  | nil => rfl
  | cons p ps ih => rw [ofPieces, Int.add_right_comm, ih, add_later, ofPieces]

theorem ne_unterminated_of_mem {line : Int} {ps : List Piece}
    (h : ∀ d ∈ (ofPieces line ps).diagnostics, d.message ≠ "Unterminated string.") :
    ∀ p ∈ ps, p.role ≠ .unterminated := by
  induction ps generalizing line with
  | nil => simp
  | cons p ps ih =>
    rw [ofPieces] at h
    have hrest : ∀ d ∈ (ofPieces (line + lineBreaks p.text) ps).diagnostics,
        d.message ≠ "Unterminated string." := by
      intro d hd
      refine h d ?_
      unfold add
      split <;> first | exact hd | exact List.mem_cons_of_mem _ hd
    refine List.forall_mem_cons.2 ⟨fun hrole => ?_, ih hrest⟩
    simp only [add, hrole] at h
    exact h _ List.mem_cons_self rfl

/-- If every text in a source closes, what follows after a line break is scanned as on its own, as
many lines later. -/
theorem ofSource_append_break {source : String}
    (h : ∀ d ∈ (ofSource source).diagnostics, d.message ≠ "Unterminated string.") (more : String) :
    ofSource (source ++ "\n" ++ more) =
      let k := lineBreaks source.toList + 1
      ⟨(ofSource source).body ++
          ⟨.newline, "\n", 1 + lineBreaks source.toList⟩ ::
            (ofSource more).body.map (Token.later k),
        (ofSource more).lastLine + k,
        (ofSource source).diagnostics ++ (ofSource more).diagnostics.map (Diagnostic.later k)⟩ := by
  have hpieces := Piece.ofChars_append_break (ne_unterminated_of_mem h) more.toList
  have hchars : (source ++ "\n" ++ more).toList = source.toList ++ '\n' :: more.toList := by simp
  rw [ofSource, hchars, hpieces, ofPieces_append, Piece.flatMap_text_ofChars, ofPieces,
    show lineBreaks ['\n'] = 1 from rfl, Int.add_assoc, ofPieces_later]
  rfl

/-- **A source text is scanned line by line.** If every text in a source closes, the tokens of the
source with more after a line break are its own without their end, the line break, and the tokens of
what follows, as many lines later, the end included; and so are the diagnostics. -/
theorem tokens_ofSource_append_break (source more : String)
    (h : ∀ d ∈ (ofSource source).diagnostics, d.message ≠ "Unterminated string.") :
    let k := 1 + lineBreaks source.toList
    let whole := ofSource (source ++ "\n" ++ more)
    whole.tokens = (ofSource source).tokens.dropLast ++
        ⟨.newline, "\n", k⟩ :: (ofSource more).tokens.map (Token.later k) ∧
      whole.diagnostics = (ofSource source).diagnostics ++
        (ofSource more).diagnostics.map (Diagnostic.later k) := by
  intro k whole
  have hwhole : whole = _ := ofSource_append_break h more
  rw [Int.add_comm (lineBreaks source.toList) 1] at hwhole
  rw [hwhole]
  refine ⟨?_, rfl⟩
  simp only [tokens, List.dropLast_concat, List.map_append, List.map_singleton, List.append_assoc,
    List.cons_append]
  rfl

/-- A number, a point and a stray character at the end of a line do not meet the digit, the equals
sign and the open text on the next ones. -/
theorem tokens_ofSource_append_break_point :
    let source := "\"a\nb\" ? 1. !"
    let more := "=5\n\"c"
    let whole := ofSource (source ++ "\n" ++ more)
    (∀ d ∈ (ofSource source).diagnostics, d.message ≠ "Unterminated string.") ∧
      whole.tokens = (ofSource source).tokens.dropLast ++
        ⟨.newline, "\n", 2⟩ :: (ofSource more).tokens.map (Token.later 2) ∧
      whole.diagnostics = (ofSource source).diagnostics ++
        (ofSource more).diagnostics.map (Diagnostic.later 2) ∧
      whole.diagnostics.map (·.line) = [2, 2, 4] := by
  intro source more whole
  have hcloses : ∀ d ∈ (ofSource source).diagnostics, d.message ≠ "Unterminated string." := by
    decide +kernel
  have hbreaks : 1 + lineBreaks source.toList = 2 := by decide +kernel
  obtain ⟨htokens, hdiagnostics⟩ := tokens_ofSource_append_break source more hcloses
  rw [hbreaks] at htokens hdiagnostics
  exact ⟨hcloses, htokens, hdiagnostics, by decide +kernel⟩

end Scan

end Scriptlet
