import Scriptlet.FrontEnd.Strict
import Scriptlet.Proofs.Scanning.Pieces
import Scriptlet.Proofs.Syntax.Grammar

/-!
# The two ways to cut a source text

The recovering front end cuts the source into pieces before anything is read (`Piece.extent`); the
strict one looks at each place for what may come next (`Strict.find`). Both skip the same blanks and
comments (`Scan.ofChars_skipped`). Elsewhere a token that may come next is found with the same kind
and length by both:

* what the first one cuts is what the second one finds (`find_of_extent`), without condition;
* what the second one finds is what the first one cuts (`extent_of_find`), unless a word starts with
  a numeral, an operator that is a word runs on into a word, a word of the language was taken for a
  name, or a text gave its last quote back.
-/

namespace Scriptlet

/-! ## What is skipped -/

namespace Scan

open FrontEnd.Strict in
/-- What the strict front end skips leaves no trace in a scan. -/
theorem ofChars_skipped {line : Int} {c : Char} {rest : List Char} {n : Nat}
    (h : skipped? c rest = some n) : ofChars line (c :: rest) = ofChars line (rest.drop n) := by
  simp only [skipped?] at h
  split at h
  · next hc =>
    obtain ⟨rfl, hslash⟩ := hc
    obtain rfl := Option.some.inj h
    refine ofChars_skip ?_ (.inr rfl) ?_
    · simp only [Piece.extent, hslash, if_true]
    · intro hmem
      rcases List.mem_cons.1 hmem with hmem | hmem
      · exact absurd hmem (by decide)
      · exact absurd (Lexeme.of_mem_take_run hmem) (by decide)
  split at h
  · next hblank =>
    obtain rfl := Option.some.inj h
    have hp : ∀ c : Char, (c == ' ' || c == '\t' || c == '\r') = true →
        c = ' ' ∨ c = '\t' ∨ c = '\r' := by simp [or_assoc]
    rw [ofChars_blank line rest (hp c hblank), Lexeme.drop_run]
    exact ofChars_dropWhile line rest hp
  · cases h

end Scan

/-! ## What the strict front end finds is a piece -/

namespace FrontEnd.Strict

open Lexeme Piece

/-- A text that closes is the same for both. -/
theorem closing?_of_textLength? {cs : List Char} {n : Nat} (h : textLength? cs = some n) :
    closing? cs = some n := by
  fun_induction textLength? cs generalizing n with
  | case1 => cases h
  | case2 rest ih =>
    obtain ⟨m, hm, rfl⟩ := Option.map_eq_some_iff.1 h
    simp only [closing?, ih hm]
  | case3 rest hne => rwa [closing?.eq_3 rest hne]
  | case4 c rest hpair hquote ih =>
    obtain ⟨m, hm, rfl⟩ := Option.map_eq_some_iff.1 h
    rw [closing?.eq_4 c rest hpair hquote, ih hm]
    rfl

/-- A text that does not close gives back a quote. -/
theorem textLength?_of_closing? {cs : List Char} {n : Nat} (h : closing? cs = some n)
    (hback : (cs.drop n).head? ≠ some '"') : textLength? cs = some n := by
  fun_induction closing? cs generalizing n with
  | case1 => cases h
  | case2 rest m hm ih =>
    obtain rfl := Option.some.inj h
    rw [textLength?, ih hm hback]
    rfl
  | case3 rest hm =>
    obtain rfl := Option.some.inj h
    exact absurd rfl hback
  | case4 rest hne => rwa [textLength?.eq_3 rest hne]
  | case5 c rest hpair hquote ih =>
    obtain ⟨m, hm, rfl⟩ := Option.map_eq_some_iff.1 h
    rw [textLength?.eq_4 c rest hpair hquote, ih hm hback]
    rfl

theorem extent_of_number? {c : Char} {rest : List Char} {n : Nat} (h : number? c rest = some n) :
    extent c rest = (.token .number, n) := by
  unfold number? at h
  split at h
  · next hdigit =>
    obtain rfl := Option.some.inj h
    exact extent_of_isDigit rest hdigit
  split at h
  · next hpoint =>
    obtain ⟨rfl, hdigit⟩ := hpoint
    obtain rfl := Option.some.inj h
    simp only [extent, hdigit, if_true]
  · cases h

theorem extent_of_text? {c : Char} {rest : List Char} {n : Nat} (h : text? c rest = some n)
    (hback : (rest.drop n).head? ≠ some '"') : extent c rest = (.token .string, n) := by
  unfold text? at h
  split at h
  · next hquote =>
    obtain rfl := hquote
    simp only [extent, textLength?_of_closing? h hback]
  · cases h

theorem extent_of_word? {c : Char} {rest : List Char} {n : Nat} (h : word? c rest = some n)
    (hnumeral : Text.isNumeral c = false) :
    extent c rest = (.token (Piece.wordKind (c :: rest.take n)), n) := by
  unfold word? at h
  split at h
  · next hword =>
    obtain rfl := Option.some.inj h
    simp only [Bool.and_eq_true, Bool.not_eq_true'] at hword
    exact extent_of_isLetter rest (Text.isLetter_or_of_isWordChar hword.1 hword.2 hnumeral)
  · cases h

theorem extent_of_separator? {c : Char} {rest : List Char} {k : Kind} {n : Nat}
    (h : separator? c = some (k, n)) : extent c rest = (.token k, n) := by
  unfold separator? at h
  split at h
  · next hc => cases h; rw [hc]; rfl
  split at h
  · next hc => cases h; rw [hc]; rfl
  · cases h

theorem startsWith_slash_of_skipped? {rest : List Char} (h : skipped? '/' rest = none) :
    startsWith '/' rest = false := by
  cases hs : startsWith '/' rest with
  | false => rfl
  | true => simp [skipped?, hs] at h

/-- Operators that may be followed by `=`. -/
theorem withEqual_eq {rest : List Char} {both alone : Kind} {k : Kind} {n : Nat}
    (h : (if startsWith '=' rest then (both, 1) else (alone, 0)) = (k, n)) :
    withEqual rest (.token both) (.token alone) = (.token k, n) := by
  unfold withEqual
  split at h <;> cases h <;> simp only [*, if_true, if_false, Bool.false_eq_true]

theorem extent_of_signOperator? {c : Char} {rest : List Char} {k : Kind} {n : Nat}
    (hskip : skipped? c rest = none) (h : signOperator? c rest = some (k, n)) :
    extent c rest = (.token k, n) := by
  unfold signOperator? at h
  split at h
  · next hc => subst hc; exact withEqual_eq (Option.some.inj h)
  split at h
  · next hc => subst hc; exact withEqual_eq (Option.some.inj h)
  split at h
  · next hc => subst hc; exact withEqual_eq (Option.some.inj h)
  split at h
  · next hc =>
    obtain ⟨rfl, hequal⟩ := hc
    cases h
    simp only [extent, withEqual, hequal, if_true]
  split at h
  · next hc => subst hc; cases h; rfl
  split at h
  · next hc => subst hc; cases h; rfl
  split at h
  · next hc => subst hc; cases h; rfl
  split at h
  · next hc =>
    subst hc
    cases h
    simp only [extent, startsWith_slash_of_skipped? hskip, Bool.false_eq_true, if_false]
  · cases h

/-- An operator that is a word runs on into a word. -/
def Glued (cs : List Char) : Prop :=
  ∃ word ∈ [['a', 'n', 'd'], ['o', 'r']], ∃ c, Text.isWordChar c = true ∧ word ++ [c] <:+: cs

/-- Text that both front ends cut alike: no operator runs on into a word, and there are no numerals
that could start a word. -/
structure Plain (cs : List Char) : Prop where
  notGlued : ¬Glued cs
  noNumeral : ∀ c ∈ cs, Text.isNumeral c = false

theorem Plain.drop {cs : List Char} (h : Plain cs) (n : Nat) : Plain (cs.drop n) where
  notGlued := by
    rintro ⟨word, hword, c, hc, hinfix⟩
    exact h.notGlued ⟨word, hword, c, hc, hinfix.trans (List.drop_suffix n cs).isInfix⟩
  noNumeral c hc := h.noNumeral c (List.mem_of_mem_drop hc)

/-- A word operator that does not run on is a word of its own. -/
theorem extent_of_not_glued {c : Char} {letters tail : List Char} {k : Kind}
    (hword : c :: letters ∈ [['a', 'n', 'd'], ['o', 'r']])
    (hglued : ¬Glued (c :: (letters ++ tail))) (hk : Piece.wordKind (c :: letters) = k) :
    extent c (letters ++ tail) = (.token k, letters.length) := by
  have hc : Text.isLetter c = true ∧ letters.all Text.isWordChar = true := by
    simp only [List.mem_cons, List.cons.injEq, List.not_mem_nil, or_false] at hword
    rcases hword with ⟨rfl, rfl⟩ | ⟨rfl, rfl⟩ <;> decide
  have hends : Ends Text.isWordChar tail := by
    cases tail with
    | nil => exact ends_nil _
    | cons d tail =>
      refine ends_cons.2 (Bool.eq_false_iff.2 fun hd => ?_)
      exact hglued ⟨_, hword, d, hd, [], tail, by simp⟩
  have hlength : wordLength (letters ++ tail) = letters.length :=
    run_append (List.all_eq_true.1 hc.2) hends
  rw [extent_of_isLetter _ (.inl hc.1), hlength, List.take_left, hk]

theorem extent_of_wordOperator? {c : Char} {rest : List Char} {k : Kind} {n : Nat}
    (h : wordOperator? c rest = some (k, n)) (hglued : ¬Glued (c :: rest)) :
    extent c rest = (.token k, n) := by
  unfold wordOperator? at h
  split at h
  · next hc =>
    obtain ⟨rfl, hprefix⟩ := hc
    obtain ⟨tail, rfl⟩ := List.isPrefixOf_iff_prefix.1 hprefix
    cases h
    exact extent_of_not_glued (by simp) hglued (by decide)
  split at h
  · next hc =>
    obtain ⟨rfl, hprefix⟩ := hc
    obtain ⟨tail, rfl⟩ := List.isPrefixOf_iff_prefix.1 hprefix
    cases h
    exact extent_of_not_glued (by simp) hglued (by decide)
  · cases h

theorem extent_of_operator? {c : Char} {rest : List Char} {k : Kind} {n : Nat}
    (hskip : skipped? c rest = none) (h : operator? c rest = some (k, n))
    (hglued : ¬Glued (c :: rest)) : extent c rest = (.token k, n) := by
  rcases Option.or_eq_some_iff.1 h with h | ⟨-, h⟩
  · exact extent_of_wordOperator? h hglued
  rcases Option.or_eq_some_iff.1 h with h | ⟨-, h⟩
  · exact extent_of_signOperator? hskip h
  split at h
  · next hc => subst hc; cases h; rfl
  · exact extent_of_separator? h

/-- A word is of the same kind for both, unless the strict front end takes a word of the language
for a name. -/
theorem wordKind_eq {expected : Expected} {word : List Char}
    (hkept : wordKind expected word = .identifier → Kind.keyword? (String.ofList word) = none) :
    Piece.wordKind word = wordKind expected word := by
  unfold wordKind at hkept ⊢
  unfold Piece.wordKind
  cases hword : Kind.keyword? (String.ofList word) with
  | none => rfl
  | some k =>
    cases hk : admits expected k with
    | true => simp only [hk, if_true, Option.getD_some]
    | false => simp [hword, hk] at hkept

theorem isSeparator_of_separator? {c : Char} {k : Kind} {n : Nat}
    (h : separator? c = some (k, n)) : k.isSeparator = true := by
  unfold separator? at h
  split at h
  · cases h; rfl
  split at h
  · cases h; rfl
  · cases h

/-- What can be found where an operand or a statement may start, in the order of the attempts. -/
inductive OperandFound (expected : Expected) (c : Char) (rest : List Char) : Kind → Nat → Prop
  | number {n : Nat} (found : number? c rest = some n) : OperandFound expected c rest .number n
  | text {n : Nat} (found : text? c rest = some n) : OperandFound expected c rest .string n
  | word {n : Nat} (found : word? c rest = some n) :
      OperandFound expected c rest (wordKind expected (c :: rest.take n)) n
  | minus (sign : c = '-') : OperandFound expected c rest .minus 0
  | opening (sign : c = '(') : OperandFound expected c rest .leftParen 0
  | separator {k : Kind} {n : Nat} (found : separator? c = some (k, n)) :
      OperandFound expected c rest k n

theorem operandFound_of_operand? {expected : Expected} {c : Char} {rest : List Char} {k : Kind}
    {n : Nat} (h : operand? expected c rest = some (k, n)) : OperandFound expected c rest k n := by
  rcases Option.or_eq_some_iff.1 h with h | ⟨-, h⟩
  · obtain ⟨m, hm, heq⟩ := Option.map_eq_some_iff.1 h
    cases heq
    exact .number hm
  rcases Option.or_eq_some_iff.1 h with h | ⟨-, h⟩
  · obtain ⟨m, hm, heq⟩ := Option.map_eq_some_iff.1 h
    cases heq
    exact .text hm
  rcases Option.or_eq_some_iff.1 h with h | ⟨-, h⟩
  · obtain ⟨m, hm, heq⟩ := Option.map_eq_some_iff.1 h
    cases heq
    exact .word hm
  split at h
  · next hc => cases h; exact .minus hc
  split at h
  · next hc => cases h; exact .opening hc
  split at h
  · exact .separator h
  · cases h

theorem extent_of_operand? {expected : Expected} {c : Char} {rest : List Char} {k : Kind} {n : Nat}
    (h : operand? expected c rest = some (k, n))
    (hnumeral : Text.isNumeral c = false)
    (hkept : k = .identifier → Kind.keyword? (String.ofList (c :: rest.take n)) = none)
    (hback : k = .string → (rest.drop n).head? ≠ some '"') : extent c rest = (.token k, n) := by
  cases operandFound_of_operand? h with
  | number found => exact extent_of_number? found
  | text found => exact extent_of_text? found (hback rfl)
  | word found => rw [extent_of_word? found hnumeral, wordKind_eq hkept]
  | minus sign | opening sign => subst sign; rfl
  | separator found => exact extent_of_separator? found

/-- What is looked for at a place. -/
def wanted (expected : Expected) (c : Char) (rest : List Char) : Option (Kind × Nat) :=
  match expected with
  | .operator => operator? c rest
  | _ => operand? expected c rest

theorem find_eq (expected : Expected) (c : Char) (rest : List Char) :
    find expected c rest =
      match skipped? c rest with
      | some n => .skipped n
      | none =>
        match wanted expected c rest with
        | some (kind, n) => .token kind n
        | none => (lexeme? c rest).elim .stray .misplaced := by
  cases expected <;> simp only [find, wanted] <;> cases lexeme? c rest <;> rfl

theorem find_eq_skipped_iff {expected : Expected} {c : Char} {rest : List Char} {n : Nat} :
    find expected c rest = .skipped n ↔ skipped? c rest = some n := by
  rw [find_eq]
  cases skipped? c rest with
  | some m => simp
  | none =>
    rcases wanted expected c rest with _ | ⟨kind, m⟩
    · cases lexeme? c rest <;> simp
    · simp

theorem find_eq_token_iff {expected : Expected} {c : Char} {rest : List Char} {k : Kind} {n : Nat} :
    find expected c rest = .token k n ↔
      skipped? c rest = none ∧ wanted expected c rest = some (k, n) := by
  rw [find_eq]
  cases skipped? c rest with
  | some m => simp
  | none =>
    rcases wanted expected c rest with _ | ⟨kind, m⟩
    · cases lexeme? c rest <;> simp
    · simp

theorem operandFound_of_find {expected : Expected} {c : Char} {rest : List Char} {k : Kind} {n : Nat}
    (h : find expected c rest = .token k n) (hne : expected ≠ .operator) :
    OperandFound expected c rest k n := by
  obtain ⟨-, hwanted⟩ := find_eq_token_iff.1 h
  cases expected with
  | operator => exact absurd rfl hne
  | statement | operand => exact operandFound_of_operand? hwanted

/-- **What the strict front end finds is cut as a piece of that kind and length**, with four
exceptions. -/
theorem extent_of_find {expected : Expected} {c : Char} {rest : List Char} {k : Kind} {n : Nat}
    (h : find expected c rest = .token k n) (hplain : Plain (c :: rest))
    (hkept : k = .identifier → Kind.keyword? (String.ofList (c :: rest.take n)) = none)
    (hback : k = .string → (rest.drop n).head? ≠ some '"') : extent c rest = (.token k, n) := by
  obtain ⟨hskip, hwanted⟩ := find_eq_token_iff.1 h
  cases expected with
  | operator => exact extent_of_operator? hskip hwanted hplain.notGlued
  | statement | operand =>
    exact extent_of_operand? hwanted (hplain.noNumeral c List.mem_cons_self) hkept hback

/-! ## What is cut as a piece is found -/

/-- The kinds of tokens that may come next. -/
def takes : Expected → Kind → Bool
  | .statement, k =>
      k.isLiteral || k.isSign || k == .leftParen || k == .printWord || k.isSeparator
  | .operand, k => k.isLiteral || k.isSign || k == .leftParen
  | .operator, k => k.rank?.isSome || k == .rightParen || k.isSeparator

/-- A word of the language that may come next is not taken for a name. -/
theorem wordKind_eq_of_takes {expected : Expected} {word : List Char}
    (hne : expected ≠ .operator) (h : takes expected (Piece.wordKind word) = true) :
    wordKind expected word = Piece.wordKind word := by
  unfold Piece.wordKind at h ⊢
  unfold wordKind
  cases hword : Kind.keyword? (String.ofList word) with
  | none => rfl
  | some k =>
    have hadmits : ∀ p ∈ Kind.keywords, takes expected p.2 = true → admits expected p.2 = true := by
      cases expected with
      | operator => exact absurd rfl hne
      | _ => decide
    rw [hword] at h
    simp only [hadmits _ (Kind.mem_keywords hword) h, if_true, Option.getD_some]

theorem operand?_of_isLetter {expected : Expected} {c : Char} {rest : List Char}
    (hc : Text.isLetter c = true ∨ c = '_') :
    operand? expected c rest =
      some (wordKind expected (c :: rest.take (wordLength rest)), wordLength rest) := by
  have hnumber : number? c rest = none := by
    have hdigit : c.isDigit = false := by
      rcases hc with hc | rfl
      · exact Text.isDigit_eq_false_of_isLetter hc
      · rfl
    have hpoint : c ≠ '.' := by
      rintro rfl
      exact absurd hc (by decide)
    simp [number?, hdigit, hpoint]
  have htext : text? c rest = none := by
    have hquote : c ≠ '"' := by
      rintro rfl
      exact absurd hc (by decide)
    simp [text?, hquote]
  have hword : word? c rest = some (wordLength rest) := by
    have hchar : (Text.isWordChar c && !Text.isDecimal c) = true := by
      rcases hc with hc | rfl
      · simp [Text.isWordChar, Text.isAlphanumeric_of_isLetter hc,
          Text.isDecimal_eq_false_of_isLetter hc]
      · decide
    simp [word?, hchar]
  simp [operand?, hnumber, htext, hword]

/-- The operators that are words end where the word ends. -/
theorem operator?_of_wordKind {c : Char} {rest : List Char}
    (h : takes .operator (Piece.wordKind (c :: rest.take (wordLength rest))) = true) :
    operator? c rest =
      some (Piece.wordKind (c :: rest.take (wordLength rest)), wordLength rest) := by
  have hoperators : ∀ p ∈ Kind.keywords, takes .operator p.2 = true →
      p = ("and", .andWord) ∨ p = ("or", .orWord) := by decide
  have hlength : (rest.take (wordLength rest)).length = wordLength rest := by
    rw [wordLength, take_run, run]
  have hrest := List.take_append_drop (wordLength rest) rest
  generalize hword : String.ofList (c :: rest.take (wordLength rest)) = word at h
  cases hkey : Kind.keyword? word with
  | none =>
    simp only [Piece.wordKind, hword, hkey, Option.getD_none] at h
    cases h
  | some k =>
    have hkind : Piece.wordKind (c :: rest.take (wordLength rest)) = k := by
      simp only [Piece.wordKind, hword, hkey, Option.getD_some]
    rw [hkind] at h ⊢
    have htext := congrArg String.toList hword
    rw [String.toList_ofList] at htext
    rcases hoperators _ (Kind.mem_keywords hkey) h with heq | heq <;> cases heq
    · obtain ⟨rfl, htake⟩ : c = 'a' ∧ rest.take (wordLength rest) = ['n', 'd'] := by
        simpa using htext
      rw [htake] at hlength hrest
      rw [← hlength, ← hrest]
      rfl
    · obtain ⟨rfl, htake⟩ : c = 'o' ∧ rest.take (wordLength rest) = ['r'] := by
        simpa using htext
      rw [htake] at hlength hrest
      rw [← hlength, ← hrest]
      rfl

theorem wanted_of_extent {expected : Expected} {c : Char} {rest : List Char} {k : Kind} {n : Nat}
    (h : extent c rest = (.token k, n)) (htakes : takes expected k = true) :
    wanted expected c rest = some (k, n) := by
  cases cut_of_extent h with
  | mark hmem =>
    simp only [marks, List.mem_cons, Prod.mk.injEq, List.not_mem_nil, or_false] at hmem
    rcases hmem with ⟨rfl, rfl⟩ | ⟨rfl, rfl⟩ | ⟨rfl, rfl⟩ | ⟨rfl, rfl⟩ | ⟨rfl, rfl⟩ | ⟨rfl, rfl⟩ |
      ⟨rfl, rfl⟩ | ⟨rfl, rfl⟩ | ⟨rfl, rfl⟩ | ⟨rfl, rfl⟩
    all_goals cases expected <;> first | rfl | cases htakes
  | pair hmem hequal =>
    simp only [pairs, List.mem_cons, Prod.mk.injEq, List.not_mem_nil, or_false] at hmem
    rcases hmem with ⟨rfl, rfl⟩ | ⟨rfl, rfl⟩ | ⟨rfl, rfl⟩ | ⟨rfl, rfl⟩
    all_goals
      cases expected with
      | operator => simp [wanted, operator?, wordOperator?, signOperator?, hequal]
      | _ => cases htakes
  | single hmem halone =>
    simp only [singles, List.mem_cons, Prod.mk.injEq, List.not_mem_nil, or_false] at hmem
    rcases hmem with ⟨rfl, rfl⟩ | ⟨rfl, rfl⟩ | ⟨rfl, rfl⟩
    all_goals
      cases expected with
      | operator => simp [wanted, operator?, wordOperator?, signOperator?, halone]
      | _ => cases htakes
  | slash hc =>
    subst hc
    cases expected with
    | operator => rfl
    | _ => cases htakes
  | string hc hlength =>
    subst hc
    have htext : text? '"' rest = some n := closing?_of_textLength? hlength
    cases expected with
    | operator => cases htakes
    | _ => simp [wanted, operand?, number?, htext]
  | number hdigit hn =>
    cases expected with
    | operator => cases htakes
    | _ => simp [wanted, operand?, number?, hdigit, hn]
  | fraction hc hdigit hn =>
    subst hc
    cases expected with
    | operator => cases htakes
    | _ => simp [wanted, operand?, number?, hdigit, hn]
  | dot => cases expected <;> cases htakes
  | word hc hn hk =>
    subst hn hk
    cases expected with
    | operator => exact operator?_of_wordKind htakes
    | _ =>
      simp only [wanted]
      rw [operand?_of_isLetter hc, wordKind_eq_of_takes (by simp) htakes]

theorem find_of_extent {expected : Expected} {c : Char} {rest : List Char} {k : Kind} {n : Nat}
    (hskip : skipped? c rest = none) (h : extent c rest = (.token k, n))
    (htakes : takes expected k = true) : find expected c rest = .token k n :=
  find_eq_token_iff.2 ⟨hskip, wanted_of_extent h htakes⟩

end FrontEnd.Strict

end Scriptlet
