import Scriptlet.Proofs.Scanning.Tiling

/-!
# Lines of a scan

The scan carries the line along from piece to piece. Seen from the whole source text this is a
count: a token is on the line of its last character and a diagnostic on the line of the first
character of what it is about, where the line of a character is one more than the line breaks before
it (`Scan.exists_tiles_lines`). The places are those of the one cut that the source text has
(`Piece.Tiles`).

Lines only grow from piece to piece (`Scan.lines_of_mem_ofPieces`), so tokens come in the order of
their lines (`Scan.pairwise_line_tokens`).
-/

namespace Scriptlet.Scan

theorem lineBreaks_nonneg (cs : List Char) : 0 ≤ lineBreaks cs := Int.natCast_nonneg _

theorem lineBreaks_dropLast_le (cs : List Char) : lineBreaks cs.dropLast ≤ lineBreaks cs :=
  Int.ofNat_le.2 ((List.dropLast_sublist cs).count_le _)

/-- The tokens of a scan are on lines of the source. -/
theorem lines_of_mem_ofPieces {line : Int} {ps : List Piece} {t : Token}
    (h : t ∈ (ofPieces line ps).body) :
    line ≤ t.line ∧ t.line ≤ line + lineBreaks (ps.flatMap (·.text)) := by
  induction ps generalizing line with
  | nil => cases h
  | cons p ps ih =>
    rw [List.flatMap_cons, lineBreaks_append]
    have hrest : t ∈ (ofPieces (line + lineBreaks p.text) ps).body → line ≤ t.line ∧
        t.line ≤ line + (lineBreaks p.text + lineBreaks (ps.flatMap (·.text))) := by
      intro ht
      have hbounds := ih ht
      have hfirst := lineBreaks_nonneg p.text
      omega
    simp only [ofPieces, add] at h
    split at h
    · rcases List.mem_cons.1 h with rfl | h
      · have hlast := lineBreaks_dropLast_le p.text
        have hfirst := lineBreaks_nonneg p.text.dropLast
        have hafter := lineBreaks_nonneg (ps.flatMap (·.text))
        simp only
        omega
      · exact hrest h
    all_goals exact hrest h

theorem pairwise_line_body (line : Int) (ps : List Piece) :
    (ofPieces line ps).body.Pairwise fun a b => a.line ≤ b.line := by
  induction ps generalizing line with
  | nil => exact .nil
  | cons p ps ih =>
    simp only [ofPieces, add]
    split
    · refine List.pairwise_cons.2 ⟨?_, ih _⟩
      intro t ht
      have hlast := lineBreaks_dropLast_le p.text
      have hlater := (lines_of_mem_ofPieces ht).1
      simp only
      omega
    all_goals exact ih _

theorem pairwise_line_tokens (source : String) :
    (ofSource source).tokens.Pairwise fun a b => a.line ≤ b.line := by
  refine List.pairwise_append.2 ⟨pairwise_line_body 1 _, List.pairwise_singleton _ _, ?_⟩
  intro t ht final hfinal
  obtain rfl := List.mem_singleton.1 hfinal
  have hbound := (lines_of_mem_ofPieces ht).2
  rw [Piece.flatMap_text_ofChars] at hbound
  rw [ofSource_eq_placed]
  exact hbound

/-- **Lines are exact.** In the one cut of the source text into pieces, each token is on the line of
its last character, the end is on the line after all line breaks, and each diagnostic is on the line
of the first character of its piece, the opening quote if it is a text that never closes. The lines
of the tokens never decrease. -/
theorem exists_tiles_lines (source : String) :
    ∃ ps : List Piece, Piece.Tiles ps source.toList ∧
      (ofSource source).tokens = (Piece.placed [] ps).filterMap Piece.Placed.token? ++
        [⟨.endOfFile, "", 1 + lineBreaks source.toList⟩] ∧
      (ofSource source).diagnostics =
        (Piece.placed [] ps).filterMap Piece.Placed.diagnostic? ∧
      (ofSource source).tokens.Pairwise fun a b => a.line ≤ b.line := by
  refine ⟨Piece.ofChars source.toList, Piece.tiles_ofChars _, ?_, ?_, pairwise_line_tokens source⟩
  · rw [tokens, final, ofSource_eq_placed]
    rfl
  · rw [ofSource_eq_placed]

end Scriptlet.Scan
