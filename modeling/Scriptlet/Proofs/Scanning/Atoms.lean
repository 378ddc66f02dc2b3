import Scriptlet.Proofs.Scanning.Tiling

/-!
# Lexemes on their own

What is cut as a token does not depend on the source text it was cut from. A token is maximal
wherever nothing, a blank or a closing parenthesis follows it (`Piece.Maximal.delimited`), so its
lexeme, scanned alone, is that token again (`Scan.atomic_of_maximal`). A text that is one token on
its own (`Scan.Atomic`) is one piece, since pieces are never empty and the token's lexeme leaves
nothing for others (`Scan.Atomic.tiles`). Such texts with blanks between them are tiles of what they
are joined to (`Scan.exists_tiles_spaced`), and a source text has one tiling only.
-/

namespace Scriptlet

/-! ## Tokens before a blank, a closing parenthesis or the end -/

namespace Lexeme

/-- Nothing follows, or a blank, or a closing parenthesis. -/
def Delimited (next : List Char) : Prop := Ends (fun c => c != ' ' && c != ')') next

theorem delimited_nil : Delimited [] := ends_nil _

theorem delimited_blank (rest : List Char) : Delimited (' ' :: rest) := ends_cons.2 rfl

theorem delimited_closing (rest : List Char) : Delimited (')' :: rest) := ends_cons.2 rfl

theorem Delimited.ends {p : Char → Bool} {next : List Char} (h : Delimited next)
    (hblank : p ' ' = false) (hclosing : p ')' = false) : Ends p next := by
  intro c hc
  have hmark : c = ' ' ∨ c = ')' := by simpa [Classical.or_iff_not_imp_left] using h c hc
  rcases hmark with rfl | rfl
  · exact hblank
  · exact hclosing

theorem Delimited.noFraction {next : List Char} (h : Delimited next) : NoFraction next := by
  rintro d after rfl
  exact absurd (ends_cons.1 h) (by decide)

/-- Nothing follows, or a blank. -/
def Parted (next : List Char) : Prop := Ends (· != ' ') next

theorem parted_nil : Parted [] := ends_nil _

theorem parted_blank (rest : List Char) : Parted (' ' :: rest) := ends_cons.2 rfl

theorem Parted.delimited {next : List Char} (h : Parted next) : Delimited next := by
  intro c hc
  have hblank : c = ' ' := by simpa using h c hc
  rw [hblank]
  rfl

end Lexeme

namespace Piece

open Lexeme

/-- A token is maximal wherever nothing, a blank or a closing parenthesis follows it. -/
theorem Maximal.delimited {next next' : List Char} {p : Piece} {k : Kind} (h : Maximal next p)
    (hrole : p.role = .token k) (hnext : Delimited next') : Maximal next' p := by
  cases h with
  | mark mem => exact .mark mem
  | pair mem => exact .pair mem
  | single mem => exact .single mem (hnext.ends rfl rfl)
  | slash => exact .slash (hnext.ends rfl rfl)
  | dot => exact .dot (hnext.ends rfl rfl)
  | number numeral => exact .number numeral (hnext.ends rfl rfl) fun _ => hnext.noFraction
  | word starts all => exact .word starts all (hnext.ends (by decide) (by decide))
  | string inner => exact .string inner (hnext.ends rfl rfl)
  | blank | comment | bang | stray | unterminated => cases hrole

theorem Maximal.parted {next next' : List Char} {p : Piece} {k : Kind} (h : Maximal next p)
    (hrole : p.role = .token k) (hnext : Parted next') : Maximal next' p :=
  h.delimited hrole hnext.delimited

/-- Characters start with one piece: pieces that are cut before what follows them and start the same
characters are the same. -/
theorem Maximal.eq_of_append_eq {next next' : List Char} {p q : Piece} (hp : Maximal next p)
    (hq : Maximal next' q) (h : p.text ++ next = q.text ++ next') : p = q ∧ next = next' := by
  obtain ⟨c, rest, hptext, hpextent⟩ := hp.extent_eq
  obtain ⟨d, rest', hqtext, hqextent⟩ := hq.extent_eq
  rw [hptext, hqtext, List.cons_append, List.cons_append] at h
  obtain ⟨rfl, htail⟩ := List.cons.inj h
  rw [htail, hqextent] at hpextent
  obtain ⟨hrole, hlength⟩ := Prod.mk.inj hpextent
  obtain ⟨rfl, hnext⟩ := List.append_inj htail hlength.symm
  refine ⟨?_, hnext⟩
  calc p = ⟨p.role, p.text⟩ := rfl
    _ = ⟨q.role, q.text⟩ := by rw [hptext, hqtext, hrole]

theorem Maximal.text_ne_nil {next : List Char} {p : Piece} (h : Maximal next p) : p.text ≠ [] := by
  obtain ⟨c, rest, htext, -⟩ := h.extent_eq
  rw [htext]
  exact List.cons_ne_nil c rest

theorem Tiles.exists_maximal {ps : List Piece} {cs : List Char} (h : Tiles ps cs) {p : Piece}
    (hp : p ∈ ps) : ∃ next, Maximal next p := by
  induction h with
  | nil => cases hp
  | @cons q qs next maximal _ ih =>
    rcases List.mem_cons.1 hp with rfl | hp
    · exact ⟨next, maximal⟩
    · exact ih hp

theorem lexeme?_eq_some_iff {p : Piece} {k : Kind} {text : String} :
    p.lexeme? = some (k, text) ↔ p = ⟨.token k, text.toList⟩ := by
  constructor
  · intro h
    obtain ⟨role, cs⟩ := p
    cases role with
    | token k' =>
      cases h
      rw [String.toList_ofList]
    | _ => cases h
  · rintro rfl
    simp only [lexeme?, String.ofList_toList]

/-- Pieces among which one is the whole text are this one alone. -/
theorem Tiles.eq_singleton {before after : List Piece} {p : Piece} {cs : List Char}
    (h : Tiles (before ++ p :: after) cs) (htext : p.text = cs) : before = [] ∧ after = [] := by
  have hflat := h.flatMap_text
  rw [List.flatMap_append, List.flatMap_cons, htext] at hflat
  have hlength := congrArg List.length hflat
  simp only [List.length_append] at hlength
  have hnil : ∀ qs : List Piece, (∀ q ∈ qs, q ∈ before ++ p :: after) →
      (qs.flatMap (·.text)).length = 0 → qs = [] := by
    intro qs hsub hzero
    refine List.eq_nil_iff_forall_not_mem.2 fun q hq => ?_
    obtain ⟨next, hmaximal⟩ := h.exists_maximal (hsub q hq)
    exact hmaximal.text_ne_nil
      (List.flatMap_eq_nil_iff.1 (List.eq_nil_of_length_eq_zero hzero) q hq)
  exact ⟨hnil before (fun q hq => List.mem_append_left _ hq) (by omega),
    hnil after (fun q hq => List.mem_append_right _ (List.mem_cons_of_mem _ hq)) (by omega)⟩

end Piece

/-! ## The lexemes of a scan -/

namespace Scan

open Piece (Maximal Tiles)

/-- The kinds and the lexemes of the tokens, the end included. -/
def lexemes (s : Scan) : List (Kind × String) := s.tokens.map fun t => (t.kind, t.lexeme)

theorem map_body_ofPieces (line : Int) (ps : List Piece) :
    (ofPieces line ps).body.map (fun t => (t.kind, t.lexeme)) = ps.filterMap Piece.lexeme? := by
  induction ps generalizing line with
  | nil => rfl
  | cons p ps ih =>
    rw [ofPieces, List.filterMap_cons, ← ih (line + lineBreaks p.text)]
    simp only [add, Piece.lexeme?]
    cases p.role <;> rfl

theorem map_diagnostics_ofPieces (line : Int) (ps : List Piece) :
    (ofPieces line ps).diagnostics.map (·.message) = ps.filterMap Piece.complaint? := by
  induction ps generalizing line with
  | nil => rfl
  | cons p ps ih =>
    rw [ofPieces, List.filterMap_cons, ← ih (line + lineBreaks p.text)]
    simp only [add, Piece.complaint?]
    cases p.role <;> rfl

theorem lexemes_of_tiles {source : String} {ps : List Piece} (h : Tiles ps source.toList) :
    (ofSource source).lexemes = ps.filterMap Piece.lexeme? ++ [(.endOfFile, "")] := by
  rw [lexemes, tokens, ofSource, h.ofChars_eq, List.map_append, map_body_ofPieces]
  rfl

theorem diagnostics_of_tiles {source : String} {ps : List Piece} (h : Tiles ps source.toList)
    (hquiet : ps.filterMap Piece.complaint? = []) : (ofSource source).diagnostics = [] := by
  have hmessages := map_diagnostics_ofPieces 1 ps
  rw [hquiet, ← h.ofChars_eq] at hmessages
  exact List.map_eq_nil_iff.1 hmessages

/-! ## Texts that are one token -/

/-- The text is one token of the given kind: scanned on its own it is that token, then the end, and
nothing is wrong with it. -/
structure Atomic (k : Kind) (text : String) : Prop where
  quiet : (ofSource text).diagnostics = []
  alone : (ofSource text).lexemes = [(k, text), (.endOfFile, "")]

instance (k : Kind) (text : String) : Decidable (Atomic k text) :=
  decidable_of_iff ((ofSource text).diagnostics = [] ∧
      (ofSource text).lexemes = [(k, text), (.endOfFile, "")])
    ⟨fun h => ⟨h.1, h.2⟩, fun h => ⟨h.quiet, h.alone⟩⟩

theorem atomic_of_maximal {next : List Char} {k : Kind} {text : String}
    (h : Maximal next ⟨.token k, text.toList⟩) : Atomic k text := by
  have htiles := Tiles.cons (h.parted rfl Lexeme.parted_nil) .nil
  rw [List.append_nil] at htiles
  refine ⟨diagnostics_of_tiles htiles rfl, ?_⟩
  rw [lexemes_of_tiles htiles, List.filterMap_cons, Piece.lexeme?_eq_some_iff.2 rfl]
  rfl

/-- A text that is one token is one piece. -/
theorem Atomic.tiles {k : Kind} {text : String} (h : Atomic k text) :
    Tiles [⟨.token k, text.toList⟩] text.toList := by
  have htiles := Piece.tiles_ofChars text.toList
  have hlexemes : (Piece.ofChars text.toList).filterMap Piece.lexeme? = [(k, text)] := by
    have halone := h.alone
    rw [lexemes_of_tiles htiles] at halone
    exact List.append_cancel_right halone
  obtain ⟨before, p, after, hpieces, -, hp, -⟩ := List.filterMap_eq_cons_iff.1 hlexemes
  obtain rfl := Piece.lexeme?_eq_some_iff.1 hp
  rw [hpieces] at htiles
  obtain ⟨rfl, rfl⟩ := htiles.eq_singleton rfl
  exact htiles

/-- Texts that are one token each, with blanks between them, are cut at the blanks. -/
theorem exists_tiles_spaced {atoms : List (Kind × String)} (h : ∀ a ∈ atoms, Atomic a.1 a.2) :
    ∃ ps, Tiles ps (" ".intercalate (atoms.map (·.2))).toList ∧
      ps.filterMap Piece.lexeme? = atoms ∧ ps.filterMap Piece.complaint? = [] := by
  induction atoms with
  | nil => exact ⟨[], .nil, rfl, rfl⟩
  | cons a atoms ih =>
    obtain ⟨k, text⟩ := a
    obtain ⟨hfirst, hrest⟩ := List.forall_mem_cons.1 h
    obtain ⟨ps, htiles, hlexemes, hquiet⟩ := ih hrest
    obtain ⟨next, hmaximal⟩ := hfirst.tiles.exists_maximal List.mem_cons_self
    have hlexeme : (⟨.token k, text.toList⟩ : Piece).lexeme? = some (k, text) :=
      Piece.lexeme?_eq_some_iff.2 rfl
    cases atoms with
    | nil =>
      refine ⟨[⟨.token k, text.toList⟩], ?_, by rw [List.filterMap_cons, hlexeme]; rfl, rfl⟩
      have hlast := Tiles.cons (hmaximal.parted rfl Lexeme.parted_nil) .nil
      rwa [List.append_nil] at hlast
    | cons b atoms =>
      refine ⟨⟨.token k, text.toList⟩ :: ⟨.blank, [' ']⟩ :: ps, ?_, ?_, hquiet⟩
      · have hjoined : (" ".intercalate (((k, text) :: b :: atoms).map (·.2))).toList =
            text.toList ++ ([' '] ++ (" ".intercalate ((b :: atoms).map (·.2))).toList) := by
          rw [List.map_cons, List.map_cons, String.intercalate_cons_cons, String.toList_append,
            String.toList_append, List.append_assoc]
          rfl
        rw [hjoined]
        exact .cons (hmaximal.parted rfl (Lexeme.parted_blank _)) (.cons (.blank (.inl rfl)) htiles)
      · rw [List.filterMap_cons, hlexeme]
        exact congrArg _ hlexemes

/-- **Lexemes stand on their own.** The lexeme of every token but the end, scanned alone, is one
token of the same kind. And texts that are one token each, joined with single blanks, are scanned as
these tokens in order, each of the kind it has alone, and nothing is wrong with them. -/
theorem lexemes_stand_alone :
    (∀ source : String, ∀ t ∈ (ofSource source).tokens, t.kind ≠ .endOfFile →
      Atomic t.kind t.lexeme) ∧
    ∀ atoms : List (Kind × String), (∀ a ∈ atoms, Atomic a.1 a.2) →
      let joined := ofSource (" ".intercalate (atoms.map (·.2)))
      joined.diagnostics = [] ∧ joined.lexemes = atoms ++ [(.endOfFile, "")] := by
  refine ⟨?_, ?_⟩
  · intro source t ht hend
    have hmem : (t.kind, t.lexeme) ∈ (ofSource source).lexemes := List.mem_map_of_mem ht
    have htiles := Piece.tiles_ofChars source.toList
    rw [lexemes_of_tiles htiles] at hmem
    rcases List.mem_append.1 hmem with hmem | hmem
    · obtain ⟨p, hp, hlexeme⟩ := List.mem_filterMap.1 hmem
      obtain rfl := Piece.lexeme?_eq_some_iff.1 hlexeme
      obtain ⟨next, hmaximal⟩ := htiles.exists_maximal hp
      exact atomic_of_maximal hmaximal
    · exact absurd (congrArg Prod.fst (List.mem_singleton.1 hmem)) hend
  · intro atoms h
    obtain ⟨ps, htiles, hlexemes, hquiet⟩ := exists_tiles_spaced h
    exact ⟨diagnostics_of_tiles htiles hquiet, by rw [lexemes_of_tiles htiles, hlexemes]⟩

/-- A point between numbers, a sign before an equals sign, a text over two lines and a line break
are told apart by blanks as they were without. -/
theorem lexemes_stand_alone_points :
    let atoms := [(Kind.identifier, "a"), (.less, "<"), (.equalEqual, "=="),
      (.string, "\"b\"\"\n\""), (.slash, "/"), (.number, "1"), (.dot, "."), (.number, ".5"),
      (.newline, "\n"), (.andWord, "and")]
    (ofSource "a< ==\"b\"\"\n\"/1..5\nand").lexemes = atoms ++ [(.endOfFile, "")] ∧
      (∀ a ∈ atoms, Atomic a.1 a.2) ∧
      (ofSource "a < == \"b\"\"\n\" / 1 . .5 \n and").lexemes =
        atoms ++ [(.endOfFile, "")] := by
  intro atoms
  have hlexemes : (ofSource "a< ==\"b\"\"\n\"/1..5\nand").lexemes =
      atoms ++ [(.endOfFile, "")] := by decide +kernel
  have hatoms : ∀ a ∈ atoms, Atomic a.1 a.2 := by
    intro a ha
    have hmem : a ∈ (ofSource "a< ==\"b\"\"\n\"/1..5\nand").lexemes := by
      rw [hlexemes]
      exact List.mem_append_left _ ha
    obtain ⟨t, ht, rfl⟩ := List.mem_map.1 hmem
    have hend : ∀ a ∈ atoms, a.1 ≠ .endOfFile := by decide
    exact lexemes_stand_alone.1 _ t ht (hend _ ha)
  have hjoined : " ".intercalate (atoms.map (·.2)) =
      "a < == \"b\"\"\n\" / 1 . .5 \n and" := by decide +kernel
  have hspaced := (lexemes_stand_alone.2 atoms hatoms).2
  rw [hjoined] at hspaced
  exact ⟨hlexemes, hatoms, hspaced⟩

end Scan

end Scriptlet
