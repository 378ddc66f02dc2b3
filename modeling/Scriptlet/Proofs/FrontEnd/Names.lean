import Scriptlet.Proofs.FrontEnd.Statements

/-!
# Names in what the front ends build

The front ends do not agree on what a name is. For one a name starts with a letter or an underscore,
for the other with any word character but a decimal digit; both go on with word characters
(`FrontEnd.isNameText`). Either way a word of the language is no name: one front end never cuts it
as one, the other cuts it as one where it cannot stand and then turns the whole source down. So
every name in a statement that a front end builds is a name of that front end
(`FrontEnd.names_of_mem_parse`).
-/

namespace Scriptlet.FrontEnd

/-- The characters that a name can start with. -/
def startsName : FrontEnd → Char → Bool
  | descent, c => Text.isLetter c || c == '_'
  | grammar, c => Text.isWordChar c && !Text.isDecimal c

/-- The text has the shape of a name. -/
def isNameText (frontEnd : FrontEnd) (text : String) : Bool :=
  match text.toList with
  | [] => false
  | c :: rest => frontEnd.startsName c && rest.all Text.isWordChar

/-- The text can be a name: it has the shape of one and is no word of the language. -/
structure IsName (frontEnd : FrontEnd) (text : String) : Prop where
  shape : frontEnd.isNameText text = true
  free : Kind.keyword? text = none

theorem isName_lastValue (frontEnd : FrontEnd) : frontEnd.IsName Run.lastValue := by
  cases frontEnd with
  | descent => exact ⟨by decide, by decide⟩
  | grammar => exact ⟨by decide, by decide⟩

/-- A word goes on with word characters. -/
theorem isNameText_word {frontEnd : FrontEnd} {c : Char} (h : frontEnd.startsName c = true)
    (rest : List Char) :
    frontEnd.isNameText (String.ofList (c :: rest.take (Lexeme.wordLength rest))) = true := by
  have hrest : (rest.take (Lexeme.wordLength rest)).all Text.isWordChar = true :=
    List.all_eq_true.2 fun _ hd => Lexeme.of_mem_take_run hd
  simp only [isNameText, String.toList_ofList, h, hrest, Bool.and_self]

/-- A name that is cut as a piece is one of the descent front end. -/
theorem isName_of_extent {c : Char} {rest : List Char} {n : Nat}
    (h : Piece.extent c rest = (.token .identifier, n)) :
    descent.IsName (String.ofList (c :: rest.take n)) := by
  refine ⟨?_, Piece.keyword?_of_extent h⟩
  generalize hk : Kind.identifier = k at h
  cases Piece.cut_of_extent h with
  | word hstarts hn =>
    subst hn
    exact isNameText_word (by simpa [startsName] using hstarts) rest
  | mark hmem | pair hmem | single hmem =>
    subst hk
    simp [Piece.marks, Piece.pairs, Piece.singles] at hmem
  | _ => cases hk

namespace Strict

/-- A name that the strict front end finds is a word. -/
theorem word?_of_find_identifier {expected : Expected} {c : Char} {rest : List Char} {n : Nat}
    (h : find expected c rest = .token .identifier n)
    (htakes : takes expected .identifier = true) : word? c rest = some n := by
  have hfound := operandFound_of_isLiteral h htakes rfl
  generalize hk : Kind.identifier = k at hfound
  cases hfound with
  | word found => exact found
  | separator found =>
    subst hk
    exact absurd (isSeparator_of_separator? found) (by decide)
  | number | text | minus | opening => cases hk

theorem isNameText_of_run {phase : Phase} {line : Int} {cs : List Char} {tokens : List Token}
    {statements : List Node} (h : Run phase line cs tokens statements) :
    ∀ t ∈ tokens, t.kind = .identifier → grammar.isNameText t.lexeme = true := by
  refine forall_of_run (fun k lexeme => k = .identifier → grammar.isNameText lexeme = true) ?_ h
  rintro expected c rest k n hfind htakes rfl
  have hword := word?_of_find_identifier hfind htakes
  unfold word? at hword
  split at hword
  · next hstarts =>
    cases hword
    exact @isNameText_word .grammar _ hstarts rest
  · cases hword

end Strict

/-- **The names that a front end builds statements with are names of that front end**, whatever is
wrong with the source text. -/
theorem names_of_mem_parse {source : String} {frontEnd : FrontEnd} {s : Node}
    (h : s ∈ (parse source frontEnd).statements) {t : Token} (ht : t ∈ s.tokens)
    (hname : t.kind = .identifier) : frontEnd.IsName t.lexeme := by
  cases frontEnd with
  | descent =>
    obtain ⟨-, us, hspells, hsub⟩ := Recovering.exists_spells_of_mem_read h
    obtain ⟨c, rest, n, hextent, hlexeme⟩ :=
      Scan.exists_extent_of_mem (hsub t (hspells.mem_of_mem_tokens ht))
    rw [hname] at hextent
    rw [hlexeme]
    exact isName_of_extent hextent
  | grammar =>
    obtain ⟨tokens, statements, hrun, hkept, -, us, hspells, hsub⟩ :=
      Strict.exists_run_of_mem_ofSource h
    have hmem := hsub t (hspells.mem_of_mem_tokens ht)
    refine ⟨Strict.isNameText_of_run hrun t hmem hname, ?_⟩
    simpa [Strict.isKeptWord, hname] using hkept t hmem

end Scriptlet.FrontEnd
