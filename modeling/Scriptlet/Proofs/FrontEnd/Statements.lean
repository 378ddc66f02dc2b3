import Scriptlet.FrontEnd
import Scriptlet.Proofs.FrontEnd.Runs
import Scriptlet.Proofs.Running.Faults
import Scriptlet.Proofs.Scanning.Lines
import Scriptlet.Proofs.Syntax.Completeness
import Scriptlet.Proofs.Syntax.Relabelling
import Scriptlet.Proofs.Syntax.Soundness

/-!
# What the front ends build can be run

A statement of the grammar, spelled by tokens of which every number is a numeral, can be run
(`Node.Canonical.runnable`). Both front ends build such statements from any source text, whatever
else is wrong with it (`FrontEnd.runnable_of_mem_parse`): the recovering one from the tokens of the
scan, whose numbers are cut as numerals, and the strict one from tokens whose numbers it finds where
a scan would cut them.

The scan also never cuts the end of the source as a token of its own, so reading its token list
cannot run past the end (`FrontEnd.Recovering.parse?_tokens`).
-/

namespace Scriptlet

/-! ## Statements of the grammar -/

namespace Node

/-- Every number among the tokens is a numeral. -/
def Numerals (tokens : List Token) : Prop :=
  ∀ t ∈ tokens, t.kind = .number → (Numeral.value? t.lexeme).isSome = true

theorem Numerals.mono {tokens others : List Token} (h : Numerals tokens)
    (hsub : ∀ t ∈ others, t ∈ tokens) : Numerals others := fun t ht => h t (hsub t ht)

theorem OfLevel.computable {level : Level} {e : Node} (h : e.OfLevel level) :
    ∀ {ts : List Token}, e.Spells ts → Numerals ts → e.Computable := by
  have hbinary : ∀ {l r : Node} {op : Token} {ts : List Token}, op.kind.rank?.isSome = true →
      (∀ {ts : List Token}, l.Spells ts → Numerals ts → l.Computable) →
      (∀ {ts : List Token}, r.Spells ts → Numerals ts → r.Computable) →
      (Node.binary l op r).Spells ts → Numerals ts → (Node.binary l op r).Computable := by
    intro l r op ts hop ihl ihr hspells hnumerals
    cases hspells with
    | binary hl hr =>
      refine .binary hop (ihl hl (hnumerals.mono fun t ht => ?_))
        (ihr hr (hnumerals.mono fun t ht => ?_))
      · exact List.mem_append_left _ ht
      · exact List.mem_append_right _ (List.mem_cons_of_mem _ ht)
  induction h with
  | assignment equal _ _ ihl ihr => exact hbinary (by rw [equal]; rfl) ihl ihr
  | operation mem _ _ ihl ihr =>
    exact hbinary (by rw [(Level.rank?_of_mem_operators mem).1]; rfl) ihl ihr
  | sign kind _ ih =>
    intro ts hspells hnumerals
    cases hspells with
    | unary he =>
      exact .unary (Kind.isSign_iff.2 kind)
        (ih he (hnumerals.mono fun t ht => List.mem_cons_of_mem _ ht))
  | literal mem =>
    intro ts hspells hnumerals
    cases hspells
    exact .literal (Kind.isLiteral_iff.2 mem) (hnumerals _ List.mem_cons_self)
  | grouping _ ih =>
    intro ts hspells hnumerals
    cases hspells with
    | grouping _ _ he =>
      refine .grouping (ih he (hnumerals.mono fun t ht => ?_))
      exact List.mem_append_left _ (List.mem_cons_of_mem _ ht)
  | ofTighter _ ih => exact ih

/-- A statement of the grammar can be run if its numbers are numerals. -/
theorem Canonical.runnable {s : Node} (h : s.Canonical) {ts : List Token} (hs : s.Spells ts)
    (hnumerals : Numerals ts) : s.Runnable := by
  cases h with
  | expression he =>
    cases hs with
    | expression hus => exact .expression (he.computable hus hnumerals)
  | print he =>
    cases hs with
    | print _ hus =>
      exact .print (he.computable hus (hnumerals.mono fun t ht => List.mem_cons_of_mem _ ht))

/-- A tree keeps only tokens that it is spelled with. -/
theorem Spells.mem_of_mem_tokens {n : Node} {ts : List Token} (h : n.Spells ts) {t : Token}
    (ht : t ∈ n.tokens) : t ∈ ts := by
  induction h with
  | literal => exact ht
  | grouping _ _ _ ih => exact List.mem_append_left _ (List.mem_cons_of_mem _ (ih ht))
  | unary _ ih =>
    rcases List.mem_cons.1 ht with rfl | ht
    · exact List.mem_cons_self
    · exact List.mem_cons_of_mem _ (ih ht)
  | binary _ _ ihl ihr =>
    rcases List.mem_append.1 ht with ht | ht
    · exact List.mem_append_left _ (ihl ht)
    rcases List.mem_cons.1 ht with rfl | ht
    · exact List.mem_append_right _ List.mem_cons_self
    · exact List.mem_append_right _ (List.mem_cons_of_mem _ (ihr ht))
  | expression _ ih => exact ih ht
  | print _ _ ih => exact List.mem_cons_of_mem _ (ih ht)

end Node

theorem Writes.exists_spells {statements : List Node} {ts : List Token} (h : Writes statements ts) :
    ∀ s ∈ statements, ∃ us, s.Spells us ∧ ∀ t ∈ us, t ∈ ts := by
  induction h with
  | nil => simp
  | separator _ _ ih =>
    intro s hs
    obtain ⟨us, hspells, hsub⟩ := ih s hs
    exact ⟨us, hspells, fun t ht => List.mem_cons_of_mem _ (hsub t ht)⟩
  | last spells =>
    intro s hs
    rw [List.mem_singleton.1 hs]
    exact ⟨_, spells, fun t ht => ht⟩
  | cons spells _ _ ih =>
    intro s hs
    rcases List.mem_cons.1 hs with rfl | hs
    · exact ⟨_, spells, fun t ht => List.mem_append_left _ ht⟩
    · obtain ⟨us, hspells, hsub⟩ := ih s hs
      exact ⟨us, hspells, fun t ht =>
        List.mem_append_right _ (List.mem_cons_of_mem _ (hsub t ht))⟩

/-! ## The tokens of a scan -/

namespace Scan

/-- A token of a scan was cut as a piece of its kind. -/
theorem exists_extent_of_mem {line : Int} {cs : List Char} {t : Token}
    (h : t ∈ (ofChars line cs).body) :
    ∃ c rest n, Piece.extent c rest = (.token t.kind, n) ∧
      t.lexeme = String.ofList (c :: rest.take n) := by
  induction cs using Piece.ofChars.induct generalizing line with
  | case1 =>
    rw [ofChars_nil] at h
    cases h
  | case2 c rest cut =>
    rename_i ih
    rw [ofChars_cons] at h
    simp only [add] at h
    split at h
    · next kind hrole =>
      rcases List.mem_cons.1 h with rfl | h
      · exact ⟨c, rest, (Piece.extent c rest).2, Prod.ext hrole rfl, rfl⟩
      · exact ih h
    all_goals exact ih h

end Scan

namespace FrontEnd

/-! ## The recovering front end -/

namespace Recovering

/-- A token list that ends a scan is read up to its end. -/
theorem parse?_tokens (source : String) :
    parse? (Scan.ofSource source).tokens =
      some (ofEvents (read .between (Scan.ofSource source).body (Scan.ofSource source).final)) := by
  refine parse?_append_endOfFile (fun t ht => ?_) rfl
  obtain ⟨c, rest, n, hextent, -⟩ := Scan.exists_extent_of_mem ht
  exact Piece.ne_endOfFile_of_extent hextent

/-- Every statement is one of the grammar and spelled with tokens of the list. -/
theorem exists_spells_of_mem_read {body : List Token} {final : Token} {s : Node}
    (hs : s ∈ (ofEvents (read .between body final)).statements) :
    s.Canonical ∧ ∃ us, s.Spells us ∧ ∀ t ∈ us, t ∈ body := by
  obtain ⟨found, hfound⟩ := @exists_accounts body final body .between [] []
    (.between (.inl rfl)) rfl
  rw [show (ofEvents (read .between body final)).statements = found.map Located.node from
    hfound.nodes.symm] at hs
  obtain ⟨l, -, rfl⟩ := List.mem_map.1 hs
  refine ⟨l.canonical, l.tokens, l.spells, fun t ht => ?_⟩
  rw [← l.whole]
  exact List.mem_append_left _ (List.mem_append_right _ ht)

end Recovering

/-! ## The strict front end -/

namespace Strict

open Lexeme

theorem wordKind_ne {k : Kind} (expected : Expected) (word : List Char) (hname : k ≠ .identifier)
    (hwords : ∀ p ∈ Kind.keywords, p.2 ≠ k) : wordKind expected word ≠ k := by
  unfold wordKind
  cases hword : Kind.keyword? (String.ofList word) with
  | none => exact hname.symm
  | some k' =>
    simp only
    split
    · exact hwords _ (Kind.mem_keywords hword)
    · exact hname.symm

/-- A literal that may come next is found where operands are. -/
theorem operandFound_of_isLiteral {expected : Expected} {c : Char} {rest : List Char} {k : Kind}
    {n : Nat} (h : find expected c rest = .token k n) (htakes : takes expected k = true)
    (hliteral : k.isLiteral = true) : OperandFound expected c rest k n := by
  refine operandFound_of_find h ?_
  rintro rfl
  have hnone : takes .operator k = false := by
    cases k <;> first | rfl | cases hliteral
  cases hnone.symm.trans htakes

/-- A number is found where a scan would cut one. -/
theorem extent_of_find_number {expected : Expected} {c : Char} {rest : List Char} {n : Nat}
    (h : find expected c rest = .token .number n) (htakes : takes expected .number = true) :
    Piece.extent c rest = (.token .number, n) := by
  have hfound := operandFound_of_isLiteral h htakes rfl
  generalize hk : Kind.number = k at hfound
  cases hfound with
  | number found => exact extent_of_number? found
  | word found => exact absurd hk.symm (wordKind_ne _ _ (by decide) (by decide))
  | separator found =>
    subst hk
    exact absurd (isSeparator_of_separator? found) (by decide)
  | text | minus | opening => cases hk

/-- What is true of every token that is found where it may come next is true of every token of a
successful reading. -/
theorem forall_of_run (P : Kind → String → Prop)
    (hfound : ∀ {expected : Expected} {c : Char} {rest : List Char} {k : Kind} {n : Nat},
      find expected c rest = .token k n → takes expected k = true →
        P k (String.ofList (c :: rest.take n)))
    {phase : Phase} {line : Int} {cs : List Char} {tokens : List Token} {statements : List Node}
    (h : Run phase line cs tokens statements) : ∀ t ∈ tokens, P t.kind t.lexeme := by
  induction h with
  | done => exact fun t ht => absurd ht List.not_mem_nil
  | skip _ _ ih => exact ih
  | token finds steps _ ih =>
    intro t ht
    rcases List.mem_cons.1 ht with rfl | ht
    · exact hfound finds (takes_of_step steps)
    · exact ih t ht

theorem numerals_of_run {phase : Phase} {line : Int} {cs : List Char} {tokens : List Token}
    {statements : List Node} (h : Run phase line cs tokens statements) : Node.Numerals tokens := by
  refine forall_of_run (fun k lexeme => k = .number → (Numeral.value? lexeme).isSome = true) ?_ h
  rintro expected c rest k n hfind htakes rfl
  exact Piece.numeral_of_extent (extent_of_find_number hfind htakes)

theorem lines_of_run {phase : Phase} {line : Int} {cs : List Char} {tokens : List Token}
    {statements : List Node} (h : Run phase line cs tokens statements) :
    ∀ t ∈ tokens, line ≤ t.line ∧ t.line ≤ line + Scan.lineBreaks cs := by
  induction h with
  | done => exact fun t ht => absurd ht List.not_mem_nil
  | @skip phase line c rest n _ _ _ _ ih =>
    intro t ht
    have hbounds := ih t ht
    have hskipped : Scan.lineBreaks (rest.drop n) ≤ Scan.lineBreaks (c :: rest) :=
      Int.ofNat_le.2 (((List.drop_sublist n rest).cons c).count_le _)
    omega
  | @token phase after line c rest k n _ _ _ _ _ _ ih =>
    intro t ht
    have hsplit : Scan.lineBreaks (c :: rest) =
        Scan.lineBreaks (c :: rest.take n) + Scan.lineBreaks (rest.drop n) := by
      rw [← Scan.lineBreaks_append, List.cons_append, List.take_append_drop]
    have hfirst := Scan.lineBreaks_nonneg (c :: rest.take n)
    have hafter := Scan.lineBreaks_nonneg (rest.drop n)
    rcases List.mem_cons.1 ht with rfl | ht
    · simp only
      omega
    · have hbounds := ih t ht
      omega

/-- Every statement is one of the grammar, spelled with tokens of a successful reading in which no
word of the language is a name. -/
theorem exists_run_of_mem_ofSource {source : String} {s : Node}
    (h : s ∈ (ofSource source).statements) :
    ∃ tokens statements, Run .between 1 source.toList tokens statements ∧
      (∀ t ∈ tokens, isKeptWord t = false) ∧
      s.Canonical ∧ ∃ us, s.Spells us ∧ ∀ t ∈ us, t ∈ tokens := by
  unfold ofSource at h
  split at h
  · cases h
  · next tokens statements hread =>
    split at h
    · cases h
    · next hkept =>
      have hrun := run_of_read hread
      obtain ⟨hwrites, hcanonical⟩ := writes_of_run hrun
      refine ⟨tokens, statements, hrun, fun t ht => ?_, hcanonical s h, hwrites.exists_spells s h⟩
      simpa using List.find?_eq_none.1 hkept t ht

/-- Every statement is one of the grammar, spelled with tokens of which every number is a numeral,
on lines of the source. -/
theorem exists_spells_of_mem_ofSource {source : String} {s : Node}
    (h : s ∈ (ofSource source).statements) :
    s.Canonical ∧ ∃ us, s.Spells us ∧ Node.Numerals us ∧
      ∀ t ∈ us, 1 ≤ t.line ∧ t.line ≤ 1 + Scan.lineBreaks source.toList := by
  obtain ⟨tokens, statements, hrun, -, hcanonical, us, hspells, hsub⟩ :=
    exists_run_of_mem_ofSource h
  exact ⟨hcanonical, us, hspells, (numerals_of_run hrun).mono hsub,
    fun t ht => lines_of_run hrun t (hsub t ht)⟩

end Strict

/-- What a front end builds is of the grammar, with numerals for numbers, on lines of the source. -/
theorem exists_spells_of_mem_parse {source : String} {frontEnd : FrontEnd} {s : Node}
    (h : s ∈ (parse source frontEnd).statements) :
    s.Canonical ∧ ∃ us, s.Spells us ∧ Node.Numerals us ∧
      ∀ t ∈ us, 1 ≤ t.line ∧ t.line ≤ 1 + Scan.lineBreaks source.toList := by
  cases frontEnd with
  | descent =>
    obtain ⟨hcanonical, us, hspells, hsub⟩ := Recovering.exists_spells_of_mem_read h
    refine ⟨hcanonical, us, hspells, fun t ht hnumber => ?_, fun t ht => ?_⟩
    · obtain ⟨c, rest, n, hextent, hlexeme⟩ := Scan.exists_extent_of_mem (hsub t ht)
      rw [hnumber] at hextent
      rw [hlexeme]
      exact Piece.numeral_of_extent hextent
    · have hlines := Scan.lines_of_mem_ofPieces (hsub t ht)
      rwa [Piece.flatMap_text_ofChars] at hlines
  | grammar => exact Strict.exists_spells_of_mem_ofSource h

/-- **What a front end builds can be run**, whatever is wrong with the source text. -/
theorem runnable_of_mem_parse {source : String} {frontEnd : FrontEnd} {s : Node}
    (h : s ∈ (parse source frontEnd).statements) : s.Runnable := by
  obtain ⟨hcanonical, us, hspells, hnumerals, -⟩ := exists_spells_of_mem_parse h
  exact hcanonical.runnable hspells hnumerals

theorem lines_of_mem_parse {source : String} {frontEnd : FrontEnd} {s : Node}
    (h : s ∈ (parse source frontEnd).statements) {t : Token} (ht : t ∈ s.tokens) :
    1 ≤ t.line ∧ t.line ≤ 1 + Scan.lineBreaks source.toList := by
  obtain ⟨-, us, hspells, -, hlines⟩ := exists_spells_of_mem_parse h
  exact hlines t (hspells.mem_of_mem_tokens ht)

end FrontEnd

end Scriptlet
