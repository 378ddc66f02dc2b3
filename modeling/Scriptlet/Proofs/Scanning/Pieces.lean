import Scriptlet.Scan

/-!
# Pieces and what they leave in a scan

What a piece can be is said once, in `Piece.Cut`: for every place of a source, `Piece.cut` gives the
sort of piece that starts there with the condition under which it is cut and its length. Facts about
pieces follow by cases: which pieces hold line breaks, that names are no words of the language. In a
quoted text the quotes inside stand in pairs (`Text.doubleQuotes`), whether it closes or not.

`Scan.ofChars` scans from a place of the source; a token adds itself to what comes after it
(`Scan.ofChars_token`), a blank or a comment leaves no trace (`Scan.ofChars_skip`).
-/

namespace Scriptlet

/-! ## Words of the language -/

namespace Kind

theorem mem_keywords {word : String} {k : Kind} (h : keyword? word = some k) :
    (word, k) ∈ keywords := by
  obtain ⟨before, after, heq, -⟩ := List.lookup_eq_some_iff.1 h
  rw [heq]
  simp

end Kind

/-! ## Classes of characters -/

namespace Text

theorem of?_of_isDigit {c : Char} (h : c.isDigit = true) : WordClass.of? c = some .decimal := by
  have hrange := Char.isDigit_iff_toNat.1 h
  have hdigits : ∀ n < 58, 48 ≤ n → (Char.ofNat n).isAlpha = false := by decide
  have halpha := hdigits c.toNat (Nat.lt_succ_of_le hrange.2) hrange.1
  rw [Char.ofNat_toNat] at halpha
  have hlt : c.toNat < 128 := Nat.lt_of_le_of_lt hrange.2 (by decide)
  simp [WordClass.of?, hlt, halpha, h]

theorem isDigit_eq_false_of_isLetter {c : Char} (h : isLetter c = true) : c.isDigit = false := by
  cases hd : c.isDigit with
  | false => rfl
  | true =>
    rw [isLetter, of?_of_isDigit hd] at h
    cases h

/-- Numerals that are no decimal digits. -/
def isNumeral (c : Char) : Bool := isAlphanumeric c && !isLetter c && !isDecimal c

/-- A word character that is neither a decimal digit nor another numeral can start a word. -/
theorem isLetter_or_of_isWordChar {c : Char} (hword : isWordChar c = true)
    (hdecimal : isDecimal c = false) (hnumeral : isNumeral c = false) :
    isLetter c = true ∨ c = '_' := by
  simp only [isWordChar, Bool.or_eq_true, beq_iff_eq] at hword
  rcases hword with hword | hword
  · rw [isNumeral, hword, hdecimal] at hnumeral
    exact .inl (by simpa using hnumeral)
  · exact .inr hword

end Text

/-! ## What a piece can be -/

namespace Piece

open Lexeme

/-- Characters that are tokens whatever follows. -/
def marks : List (Char × Kind) := [
  ('(', .leftParen), (')', .rightParen), ('\x7b', .leftBrace), ('\x7d', .rightBrace),
  (',', .comma), ('-', .minus), ('+', .plus), (';', .semicolon), ('*', .star), ('\n', .newline)]

/-- Characters that make a token together with `=`. -/
def pairs : List (Char × Kind) := [
  ('=', .equalEqual), ('<', .lessEqual), ('>', .greaterEqual), ('!', .bangEqual)]

/-- Characters that are tokens unless `=` follows. -/
def singles : List (Char × Kind) := [('=', .equal), ('<', .less), ('>', .greater)]

/-- The pieces that can start with a character, with the number of characters that follow it. -/
inductive Cut (c : Char) (rest : List Char) : Role → Nat → Prop
  | mark {k : Kind} (mem : (c, k) ∈ marks) : Cut c rest (.token k) 0
  | pair {k : Kind} (mem : (c, k) ∈ pairs) (equal : startsWith '=' rest = true) :
      Cut c rest (.token k) 1
  | single {k : Kind} (mem : (c, k) ∈ singles) (alone : startsWith '=' rest = false) :
      Cut c rest (.token k) 0
  | slash (isSlash : c = '/') (alone : startsWith '/' rest = false) : Cut c rest (.token .slash) 0
  | string {n : Nat} (isQuote : c = '"') (closes : textLength? rest = some n) :
      Cut c rest (.token .string) n
  | number {n : Nat} (isDigit : c.isDigit = true) (length : n = numberLength rest) :
      Cut c rest (.token .number) n
  | fraction {n : Nat} (isPoint : c = '.') (digits : startsWithDigit rest = true)
      (length : n = run Char.isDigit rest) : Cut c rest (.token .number) n
  | dot (isPoint : c = '.') (alone : startsWithDigit rest = false) : Cut c rest (.token .dot) 0
  | word {k : Kind} {n : Nat} (starts : Text.isLetter c = true ∨ c = '_')
      (length : n = wordLength rest) (kind : k = wordKind (c :: rest.take n)) :
      Cut c rest (.token k) n
  | blank (mem : c = ' ' ∨ c = '\t' ∨ c = '\r') : Cut c rest .blank 0
  | comment {n : Nat} (isSlash : c = '/') (slash : startsWith '/' rest = true)
      (length : n = commentLength rest) : Cut c rest .comment n
  | unterminated {n : Nat} (isQuote : c = '"') (opens : textLength? rest = none)
      (length : n = rest.length) : Cut c rest .unterminated n
  | stray : Cut c rest .stray 0

theorem cut (c : Char) (rest : List Char) : Cut c rest (extent c rest).1 (extent c rest).2 := by
  unfold extent
  split
  -- The signs that `=` may follow come tenth; everything before them is a mark.
  case h_10 | h_11 | h_12 =>
    unfold withEqual
    split
    · next h => exact .pair (by decide) h
    · next h => exact .single (by decide) (by simpa using h)
  case h_13 =>
    unfold withEqual
    split
    · next h => exact .pair (by decide) h
    · exact .stray
  case h_14 =>
    split
    · next h => exact .comment rfl h rfl
    · next h => exact .slash rfl (by simpa using h)
  case h_15 =>
    split
    · next h => exact .string rfl h
    · next h => exact .unterminated rfl h rfl
  case h_16 =>
    split
    · next h => exact .fraction rfl h rfl
    · next h => exact .dot rfl (by simpa using h)
  case h_17 => exact .blank (.inl rfl)
  case h_18 => exact .blank (.inr (.inr rfl))
  case h_19 => exact .blank (.inr (.inl rfl))
  case h_21 =>
    split
    · next h => exact .number h rfl
    split
    · next h => exact .word (by simpa using h) rfl rfl
    · exact .stray
  all_goals exact .mark (by decide)

theorem cut_of_extent {c : Char} {rest : List Char} {role : Role} {n : Nat}
    (h : extent c rest = (role, n)) : Cut c rest role n := by
  have := cut c rest
  rwa [h] at this

end Piece

/-! ## Runs of characters -/

namespace Lexeme

theorem take_run (p : Char → Bool) (cs : List Char) : cs.take (run p cs) = cs.takeWhile p := by
  induction cs with
  | nil => rfl
  | cons c rest ih =>
    simp only [run, List.takeWhile_cons]
    split
    · simpa [run] using ih
    · rfl

theorem drop_run (p : Char → Bool) (cs : List Char) : cs.drop (run p cs) = cs.dropWhile p := by
  induction cs with
  | nil => rfl
  | cons c rest ih =>
    simp only [run, List.takeWhile_cons, List.dropWhile_cons]
    split
    · simpa [run] using ih
    · rfl

theorem of_mem_take_run {p : Char → Bool} {cs : List Char} {c : Char}
    (h : c ∈ cs.take (run p cs)) : p c = true := by
  rw [take_run] at h
  exact List.all_eq_true.1 List.all_takeWhile c h

theorem startsWith_iff {c : Char} {cs : List Char} :
    startsWith c cs = true ↔ ∃ rest, cs = c :: rest := by
  cases cs <;> simp [startsWith]

/-- The characters do not go on with one that satisfies `p`. -/
def Ends (p : Char → Bool) (cs : List Char) : Prop := ∀ c ∈ cs.head?, p c = false

theorem ends_nil (p : Char → Bool) : Ends p [] := by
  intro c hc
  cases hc

theorem ends_cons {p : Char → Bool} {c : Char} {cs : List Char} :
    Ends p (c :: cs) ↔ p c = false := by
  simp [Ends]

theorem ends_drop_run (p : Char → Bool) (cs : List Char) : Ends p (cs.drop (run p cs)) := by
  induction cs with
  | nil => exact ends_nil p
  | cons c rest ih =>
    rw [drop_run] at ih ⊢
    rw [List.dropWhile_cons]
    split
    · exact ih
    · next hc => exact ends_cons.2 (by simpa using hc)

theorem run_of_ends {p : Char → Bool} {cs : List Char} (h : Ends p cs) : run p cs = 0 := by
  cases cs with
  | nil => rfl
  | cons c rest => simp [run, ends_cons.1 h]

theorem run_append {p : Char → Bool} {cs next : List Char} (hall : ∀ c ∈ cs, p c = true)
    (hends : Ends p next) : run p (cs ++ next) = cs.length := by
  have hnext : (next.takeWhile p).length = 0 := run_of_ends hends
  rw [run, List.takeWhile_append_of_pos hall, List.length_append, hnext, Nat.add_zero]

theorem startsWith_eq_false_iff {c : Char} {cs : List Char} :
    startsWith c cs = false ↔ Ends (· == c) cs := by
  cases cs <;> simp [startsWith, Ends]

theorem startsWithDigit_eq_false_iff {cs : List Char} :
    startsWithDigit cs = false ↔ Ends Char.isDigit cs := by
  cases cs <;> simp [startsWithDigit, Ends]

end Lexeme

/-! ## Quoted texts -/

namespace Text

/-- A text as it is written between quotes: every quote stands twice. -/
def doubleQuotes : List Char → List Char
  | [] => []
  | c :: rest => if c = '"' then '"' :: '"' :: doubleQuotes rest else c :: doubleQuotes rest

theorem doubleQuotes_quote (rest : List Char) :
    doubleQuotes ('"' :: rest) = '"' :: '"' :: doubleQuotes rest := rfl

theorem doubleQuotes_of_ne {c : Char} (h : c ≠ '"') (rest : List Char) :
    doubleQuotes (c :: rest) = c :: doubleQuotes rest := by
  rw [doubleQuotes, if_neg h]

end Text

namespace Lexeme

open Text

theorem textLength?_cons_of_ne {c : Char} (h : c ≠ '"') (rest : List Char) :
    textLength? (c :: rest) = (textLength? rest).map (· + 1) := by
  refine textLength?.eq_4 c rest ?_ h
  intro tail hc
  exact absurd hc h

theorem textLength?_quote {next : List Char} (h : Ends (· == '"') next) :
    textLength? ('"' :: next) = some 1 := by
  refine textLength?.eq_3 next ?_
  rintro tail rfl
  exact absurd (ends_cons.1 h) (by decide)

theorem textLength?_doubleQuotes_append (inner : List Char) {next : List Char}
    (h : Ends (· == '"') next) :
    textLength? (doubleQuotes inner ++ '"' :: next) = some ((doubleQuotes inner).length + 1) := by
  induction inner with
  | nil => exact textLength?_quote h
  | cons c rest ih =>
    by_cases hc : c = '"'
    · subst hc
      rw [doubleQuotes_quote, List.cons_append, List.cons_append, textLength?, ih]
      rfl
    · rw [doubleQuotes_of_ne hc, List.cons_append, textLength?_cons_of_ne hc, ih]
      rfl

theorem textLength?_doubleQuotes (inner : List Char) : textLength? (doubleQuotes inner) = none := by
  induction inner with
  | nil => rfl
  | cons c rest ih =>
    by_cases hc : c = '"'
    · subst hc
      rw [doubleQuotes_quote, textLength?, ih]
      rfl
    · rw [doubleQuotes_of_ne hc, textLength?_cons_of_ne hc, ih]
      rfl

/-- Up to the quote that closes a text all quotes stand in pairs, and no quote follows it. -/
theorem exists_doubleQuotes_of_textLength? {cs : List Char} {n : Nat}
    (h : textLength? cs = some n) :
    ∃ inner, cs.take n = doubleQuotes inner ++ ['"'] ∧ Ends (· == '"') (cs.drop n) := by
  fun_induction textLength? cs generalizing n with
  | case1 => cases h
  | case2 rest ih =>
    obtain ⟨m, hm, rfl⟩ := Option.map_eq_some_iff.1 h
    obtain ⟨inner, htake, hends⟩ := ih hm
    refine ⟨'"' :: inner, ?_, hends⟩
    rw [doubleQuotes_quote, List.take_succ_cons, List.take_succ_cons, htake]
    rfl
  | case3 rest hne =>
    obtain rfl := Option.some.inj h
    refine ⟨[], rfl, ?_⟩
    cases rest with
    | nil => exact ends_nil _
    | cons c rest =>
      refine ends_cons.2 (beq_eq_false_iff_ne.2 ?_)
      rintro rfl
      exact hne rest rfl
  | case4 c rest hpair hquote ih =>
    obtain ⟨m, hm, rfl⟩ := Option.map_eq_some_iff.1 h
    obtain ⟨inner, htake, hends⟩ := ih hm
    refine ⟨c :: inner, ?_, hends⟩
    rw [doubleQuotes_of_ne hquote, List.take_succ_cons, htake]
    rfl

/-- In a text that never closes all quotes stand in pairs. -/
theorem exists_doubleQuotes_of_textLength?_eq_none {cs : List Char} (h : textLength? cs = none) :
    ∃ inner, cs = doubleQuotes inner := by
  fun_induction textLength? cs with
  | case1 => exact ⟨[], rfl⟩
  | case2 rest ih =>
    obtain ⟨inner, rfl⟩ := ih (Option.map_eq_none_iff.1 h)
    exact ⟨'"' :: inner, rfl⟩
  | case3 => cases h
  | case4 c rest hpair hquote ih =>
    obtain ⟨inner, rfl⟩ := ih (Option.map_eq_none_iff.1 h)
    exact ⟨c :: inner, (doubleQuotes_of_ne hquote inner).symm⟩

end Lexeme

/-! ## Scans from a place of the source -/

namespace Scan

theorem lineBreaks_eq_zero {cs : List Char} (h : '\n' ∉ cs) : lineBreaks cs = 0 := by
  simp [lineBreaks, List.count_eq_zero.2 h]

theorem lineBreaks_append (cs ds : List Char) :
    lineBreaks (cs ++ ds) = lineBreaks cs + lineBreaks ds := by
  simp [lineBreaks, List.count_append]

/-- Scans the characters of a source from a place on the given line. -/
def ofChars (line : Int) (cs : List Char) : Scan := ofPieces line (Piece.ofChars cs)

theorem ofChars_nil (line : Int) : ofChars line [] = ⟨[], line, []⟩ := by
  rw [ofChars, Piece.ofChars, ofPieces]

theorem ofChars_cons (line : Int) (c : Char) (rest : List Char) :
    ofChars line (c :: rest) =
      add line ⟨(Piece.extent c rest).1, c :: rest.take (Piece.extent c rest).2⟩
        (ofChars (line + lineBreaks (c :: rest.take (Piece.extent c rest).2))
          (rest.drop (Piece.extent c rest).2)) := by
  rw [ofChars, Piece.ofChars, ofPieces, ofChars]

theorem ofChars_token {line : Int} {c : Char} {rest : List Char} {k : Kind} {n : Nat}
    (h : Piece.extent c rest = (.token k, n)) :
    ofChars line (c :: rest) =
      let s := ofChars (line + lineBreaks (c :: rest.take n)) (rest.drop n)
      { s with body := ⟨k, String.ofList (c :: rest.take n),
        line + lineBreaks (c :: rest.take n).dropLast⟩ :: s.body } := by
  rw [ofChars_cons, h]
  rfl

/-- A lexeme within a line leaves the rest on this line. -/
theorem ofChars_inLine {line : Int} {c : Char} {rest : List Char} {k : Kind} {n : Nat}
    (h : Piece.extent c rest = (.token k, n)) (hbreaks : '\n' ∉ c :: rest.take n) :
    ofChars line (c :: rest) =
      let s := ofChars line (rest.drop n)
      { s with body := ⟨k, String.ofList (c :: rest.take n), line⟩ :: s.body } := by
  have hlast : '\n' ∉ (c :: rest.take n).dropLast :=
    fun hmem => hbreaks (List.dropLast_subset _ hmem)
  rw [ofChars_token h, lineBreaks_eq_zero hbreaks, lineBreaks_eq_zero hlast, Int.add_zero]

/-- Blanks and comments leave no trace. -/
theorem ofChars_skip {line : Int} {c : Char} {rest : List Char} {role : Role} {n : Nat}
    (h : Piece.extent c rest = (role, n)) (hrole : role = .blank ∨ role = .comment)
    (hbreaks : '\n' ∉ c :: rest.take n) :
    ofChars line (c :: rest) = ofChars line (rest.drop n) := by
  rw [ofChars_cons, h, lineBreaks_eq_zero hbreaks, Int.add_zero]
  rcases hrole with rfl | rfl <;> rfl

theorem ofChars_blank (line : Int) {c : Char} (rest : List Char)
    (h : c = ' ' ∨ c = '\t' ∨ c = '\r') : ofChars line (c :: rest) = ofChars line rest := by
  rcases h with rfl | rfl | rfl <;> exact ofChars_skip rfl (.inl rfl) (by simp)

theorem ofChars_dropWhile (line : Int) {p : Char → Bool} (cs : List Char)
    (hp : ∀ c, p c = true → c = ' ' ∨ c = '\t' ∨ c = '\r') :
    ofChars line cs = ofChars line (cs.dropWhile p) := by
  induction cs with
  | nil => rfl
  | cons c rest ih =>
    rw [List.dropWhile_cons]
    split
    · next hc => rw [ofChars_blank line rest (hp c hc), ih]
    · rfl

end Scan

/-! ## Extents of pieces by their first character -/

namespace Piece

open Lexeme

theorem extent_of_isDigit {c : Char} (rest : List Char) (h : c.isDigit = true) :
    extent c rest = (.token .number, numberLength rest) := by
  unfold extent
  split
  all_goals first | exact absurd h (by decide) | simp only [h, if_true]

theorem extent_of_isLetter {c : Char} (rest : List Char)
    (h : Text.isLetter c = true ∨ c = '_') :
    extent c rest =
      (.token (wordKind (c :: rest.take (wordLength rest))), wordLength rest) := by
  have hdigit : c.isDigit = false := by
    rcases h with h | rfl
    · exact Text.isDigit_eq_false_of_isLetter h
    · rfl
  have hword : (Text.isLetter c || c == '_') = true := by simpa using h
  unfold extent
  split
  all_goals first
    | exact absurd hword (by decide)
    | simp only [hdigit, hword, if_true, Bool.false_eq_true, if_false]

theorem wordKind_ne {k : Kind} (word : List Char) (hname : k ≠ .identifier)
    (hwords : ∀ p ∈ Kind.keywords, p.2 ≠ k) : wordKind word ≠ k := by
  unfold wordKind
  cases h : Kind.keyword? (String.ofList word) with
  | none => exact hname.symm
  | some k' => exact hwords _ (Kind.mem_keywords h)

theorem keyword?_of_wordKind {word : List Char} (h : wordKind word = .identifier) :
    Kind.keyword? (String.ofList word) = none := by
  have hwords : ∀ p ∈ Kind.keywords, p.2 ≠ .identifier := by decide
  unfold wordKind at h
  cases hk : Kind.keyword? (String.ofList word) with
  | none => rfl
  | some k =>
    rw [hk] at h
    exact absurd h (hwords _ (Kind.mem_keywords hk))

end Piece

/-! ## Line breaks in the text of a token -/

namespace Piece

open Lexeme

theorem break_notMem_numberLength (cs : List Char) : '\n' ∉ cs.take (numberLength cs) := by
  have hfraction : ∀ ds : List Char, '\n' ∉ ds.take (fractionLength ds) := by
    intro ds
    unfold fractionLength
    split
    · next c rest =>
      split
      · next hdigit =>
        rw [Nat.add_comm, List.take_succ_cons, List.take_succ_cons]
        intro hmem
        rcases List.mem_cons.1 hmem with hmem | hmem
        · exact absurd hmem (by decide)
        rcases List.mem_cons.1 hmem with rfl | hmem
        · exact absurd hdigit (by decide)
        · exact absurd (of_mem_take_run hmem) (by decide)
      · simp
    · simp
  intro hmem
  rw [numberLength, List.take_add] at hmem
  rcases List.mem_append.1 hmem with hmem | hmem
  · exact absurd (of_mem_take_run hmem) (by decide)
  · exact hfraction _ hmem

/-- Only line breaks and quoted texts hold line breaks. -/
theorem break_notMem_of_extent {c : Char} {rest : List Char} {k : Kind} {n : Nat}
    (h : extent c rest = (.token k, n)) (hnewline : k ≠ .newline) (hstring : k ≠ .string) :
    '\n' ∉ c :: rest.take n := by
  intro hmem
  rcases List.mem_cons.1 hmem with rfl | hmem
  · cases h
    exact hnewline rfl
  cases cut_of_extent h with
  | pair _ hequal =>
    obtain ⟨tail, rfl⟩ := startsWith_iff.1 hequal
    exact absurd hmem (by simp)
  | string => exact hstring rfl
  | number _ hn =>
    subst hn
    exact break_notMem_numberLength rest hmem
  | fraction _ _ hn =>
    subst hn
    exact absurd (of_mem_take_run hmem) (by decide)
  | word _ hn =>
    subst hn
    exact absurd (of_mem_take_run hmem) (by decide)
  | mark | single | slash | dot => exact absurd hmem (by simp)

theorem textLength?_of_extent {c : Char} {rest : List Char} {n : Nat}
    (h : extent c rest = (.token .string, n)) : textLength? rest = some n := by
  generalize hk : Kind.string = k at h
  cases cut_of_extent h with
  | string _ hn => exact hn
  | word _ _ hword => exact absurd (hk.trans hword).symm (wordKind_ne _ (by decide) (by decide))
  | mark hmem | pair hmem | single hmem =>
    subst hk
    simp [marks, pairs, singles] at hmem
  | _ => cases hk

/-- A token that is a name is no word of the language. -/
theorem keyword?_of_extent {c : Char} {rest : List Char} {n : Nat}
    (h : extent c rest = (.token .identifier, n)) :
    Kind.keyword? (String.ofList (c :: rest.take n)) = none := by
  generalize hk : Kind.identifier = k at h
  cases cut_of_extent h with
  | word _ _ hword => exact keyword?_of_wordKind (hk.trans hword).symm
  | mark hmem | pair hmem | single hmem =>
    subst hk
    simp [marks, pairs, singles] at hmem
  | _ => cases hk

/-- The last character of a token's text is no line break, unless the token is one. -/
theorem lineBreaks_dropLast {c : Char} {rest : List Char} {k : Kind} {n : Nat}
    (h : extent c rest = (.token k, n)) (hnewline : k ≠ .newline) :
    Scan.lineBreaks (c :: rest.take n).dropLast = Scan.lineBreaks (c :: rest.take n) := by
  by_cases hstring : k = .string
  · subst hstring
    obtain ⟨inner, htake, -⟩ := exists_doubleQuotes_of_textLength? (textLength?_of_extent h)
    rw [htake, ← List.cons_append, List.dropLast_concat, Scan.lineBreaks_append]
    exact (Int.add_zero _).symm
  · have hbreak := break_notMem_of_extent h hnewline hstring
    rw [Scan.lineBreaks_eq_zero hbreak,
      Scan.lineBreaks_eq_zero fun hmem => hbreak (List.dropLast_subset _ hmem)]

end Piece

end Scriptlet
