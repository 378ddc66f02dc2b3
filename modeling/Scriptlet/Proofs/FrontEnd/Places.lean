import Mathlib.Tactic.Choose
import Scriptlet.Proofs.FrontEnd.Statements
import Scriptlet.Proofs.Scanning.Atoms

/-!
# Where statements stand in the source

A tree keeps neither parentheses nor the word `print`, so its line is that of its leftmost leaf and
not that of its first character. The two are the same but for one case: on the way from the first
character of a statement to its leftmost leaf there are only parentheses, the word `print`, blanks
and comments, and none of these holds a line break (`Standing.lineBreaks_opening`). A leaf that is a
text over several lines is on its first line for one front end and on its last for the other.

To say where a statement stands, the source is cut into the pieces that its front end makes of it
(`FrontEnd.Cuts`). The strict front end looks for what may come next, which the token before decides
(`Strict.Expected.after`), so its cut is said without reading anything (`Strict.Tiles`). The tokens
of both are the pieces in their place (`FrontEnd.tokenAt?`), statements are slices of the tokens
(`FrontEnd.exists_slices`), and a slice of the tokens is a stretch of the source
(`Standing`, `FrontEnd.exists_standing`).
-/

namespace Scriptlet

open Scan (lineBreaks lineBreaks_append lineBreaks_eq_zero)

/-! ## The leftmost leaf -/

namespace Node

/-- Where the walk down the left side of a tree ends: at a literal or at a prefix operator. -/
def leading : Node → Node
  | literal t => literal t
  | grouping e => leading e
  | unary op e => unary op e
  | binary l _ _ => leading l
  | expression e => leading e
  | print e => leading e
  | program body => program body

/-- Only parentheses and the word `print` are spelled before the token that gives a tree its
line. -/
theorem Spells.exists_leading {n : Node} {ts : List Token} (h : n.Spells ts) :
    ∃ opening leaf rest, ts = opening ++ leaf :: rest ∧
      (∀ t ∈ opening, t.kind = .leftParen ∨ t.kind = .printWord) ∧ n.line = .ok leaf.line ∧
      (n.leading = .literal leaf ∨ ∃ e, n.leading = .unary leaf e) := by
  induction h with
  | literal t => exact ⟨[], t, [], rfl, by simp, rfl, .inl rfl⟩
  | @grouping e ts opening closing isOpening _ _ ih =>
    obtain ⟨before, leaf, rest, rfl, hkinds, hline, hleading⟩ := ih
    refine ⟨opening :: before, leaf, rest ++ [closing], by simp, ?_, hline, hleading⟩
    exact List.forall_mem_cons.2 ⟨.inl isOpening, hkinds⟩
  | @unary op e ts => exact ⟨[], op, ts, rfl, by simp, rfl, .inr ⟨e, rfl⟩⟩
  | @binary l r op ls rs _ _ ihl =>
    obtain ⟨before, leaf, rest, rfl, hkinds, hline, hleading⟩ := ihl
    exact ⟨before, leaf, rest ++ op :: rs, by simp, hkinds, hline, hleading⟩
  | expression _ ih => exact ih
  | @print e word ts isPrint _ ih =>
    obtain ⟨before, leaf, rest, rfl, hkinds, hline, hleading⟩ := ih
    refine ⟨word :: before, leaf, rest, rfl, ?_, hline, hleading⟩
    exact List.forall_mem_cons.2 ⟨.inr isPrint, hkinds⟩

/-- The leftmost leaf of a tree is of the kinds that the grammar has for it. -/
def LeadingKind (n : Node) : Prop :=
  (∀ t, n.leading = .literal t → t.kind.isLiteral = true) ∧
    ∀ op e, n.leading = .unary op e → op.kind.isSign = true

theorem OfLevel.leadingKind {level : Level} {e : Node} (h : e.OfLevel level) : e.LeadingKind := by
  induction h with
  | assignment _ _ _ ihl => exact ihl
  | operation _ _ _ ihl => exact ihl
  | sign kind =>
    refine ⟨fun t ht => (by cases ht), fun op e he => ?_⟩
    cases he
    exact Kind.isSign_iff.2 kind
  | literal mem =>
    refine ⟨fun t ht => ?_, fun op e he => (by cases he)⟩
    cases ht
    exact Kind.isLiteral_iff.2 mem
  | grouping _ ih => exact ih
  | ofTighter _ ih => exact ih

theorem Canonical.leadingKind {s : Node} (h : s.Canonical) : s.LeadingKind := by
  cases h with
  | expression body => exact body.leadingKind
  | print body => exact body.leadingKind

end Node

/-! ## Line breaks in the pieces of a scan -/

namespace Piece

theorem Maximal.kind_of_break {next text : List Char} {k : Kind}
    (h : Piece.Maximal next ⟨.token k, text⟩) (hmem : '\n' ∈ text) :
    k = .newline ∨ k = .string := by
  obtain ⟨c, rest, htext, hextent⟩ := h.extent_eq
  by_cases hnewline : k = .newline
  · exact .inl hnewline
  by_cases hstring : k = .string
  · exact .inr hstring
  have hbreak := break_notMem_of_extent hextent hnewline hstring
  rw [List.take_left, ← htext] at hbreak
  exact absurd hmem hbreak

/-- A line break of the source is a token of its own or stands in a quoted text. -/
def Breaks (p : Piece) : Prop := p.role = .token .newline ∨ p.role = .token .string

theorem Maximal.breaks {next : List Char} {p : Piece} (h : Piece.Maximal next p)
    (hclosed : p.role ≠ .unterminated) (hmem : '\n' ∈ p.text) : p.Breaks := by
  obtain ⟨role, text⟩ := p
  cases role with
  | token k => exact (h.kind_of_break hmem).imp (congrArg Role.token) (congrArg Role.token)
  | blank =>
    cases h with
    | blank mem => rcases mem with rfl | rfl | rfl <;> exact absurd hmem (by decide)
  | comment =>
    cases h with
    | comment inLine => exact absurd (by simpa using hmem) inLine
  | stray =>
    cases h with
    | bang => exact absurd hmem (by decide)
    | stray noPlace =>
      obtain rfl := List.mem_singleton.1 hmem
      exact absurd noPlace (by decide)
  | unterminated => exact absurd rfl hclosed

theorem lineBreaks_flatMap_text {ps : List Piece} (h : ∀ p ∈ ps, '\n' ∉ p.text) :
    lineBreaks (ps.flatMap (·.text)) = 0 := by
  refine lineBreaks_eq_zero ?_
  intro hmem
  obtain ⟨p, hp, hbreak⟩ := List.mem_flatMap.1 hmem
  exact h p hp hbreak

end Piece

/-! ## The cut of the strict front end -/

namespace FrontEnd.Strict

open Lexeme

/-- What may come after a token. -/
def Expected.after (k : Kind) : Expected :=
  if k.isSeparator then .statement
  else if k.isLiteral || k == .rightParen then .operator
  else .operand

theorem expected_of_reading_step {r r' : Reading} {t : Token} (printing : Bool)
    (h : r.step t = some r') : (Phase.within printing r').expected = .after t.kind := by
  cases r with
  | wanting outer inner =>
    simp only [Reading.step] at h
    split at h
    · next hliteral =>
      cases h
      simp [Phase.expected, Expected.after, hliteral, Kind.isSeparator_of_isLiteral hliteral]
    split at h
    · next hsign =>
      cases h
      rcases Kind.isSign_iff.1 hsign with hk | hk <;> rw [hk] <;> rfl
    split at h
    · next hparen =>
      cases h
      rw [hparen]
      rfl
    · cases h
  | holding outer waiting operand =>
    simp only [Reading.step] at h
    split at h
    · next hrank =>
      cases h
      revert hrank
      cases t.kind <;> intro hrank <;> first | rfl | cases hrank
    split at h
    · next hparen =>
      cases h
      rw [hparen]
      rfl
    · cases h

/-- What may come next depends on the kind of the token before it only. -/
theorem expected_of_step {phase after : Phase} {t : Token} {ended : List Node}
    (h : phase.step t = some (after, ended)) : after.expected = .after t.kind := by
  cases Phase.stepped_of_step h with
  | passes hseparator | ends hseparator => simp [Phase.expected, Expected.after, hseparator]
  | prints hprint =>
    rw [hprint]
    rfl
  | opens hr => exact expected_of_reading_step false hr
  | @reads printing _ _ hr => exact expected_of_reading_step printing hr

/-- The characters are these pieces put together, where `expected` may come first: blanks and
comments, and tokens that are found where they may come next. -/
inductive Tiles : Expected → List Piece → List Char → Prop
  | nil {expected : Expected} : Tiles expected [] []
  | skip {expected : Expected} {c : Char} {rest : List Char} {n : Nat} {ps : List Piece}
      (skips : skipped? c rest = some n) (tiles : Tiles expected ps (rest.drop n)) :
      Tiles expected (⟨if c = '/' then .comment else .blank, c :: rest.take n⟩ :: ps) (c :: rest)
  | token {expected : Expected} {c : Char} {rest : List Char} {k : Kind} {n : Nat}
      {ps : List Piece} (finds : find expected c rest = .token k n)
      (tiles : Tiles (.after k) ps (rest.drop n)) :
      Tiles expected (⟨.token k, c :: rest.take n⟩ :: ps) (c :: rest)

theorem Tiles.flatMap_text {expected : Expected} {ps : List Piece} {cs : List Char}
    (h : Tiles expected ps cs) : ps.flatMap (·.text) = cs := by
  induction h with
  | nil => rfl
  | skip _ _ ih => rw [List.flatMap_cons, ih, List.cons_append, List.take_append_drop]
  | token _ _ ih => rw [List.flatMap_cons, ih, List.cons_append, List.take_append_drop]

theorem break_notMem_of_skipped? {c : Char} {rest : List Char} {n : Nat}
    (h : skipped? c rest = some n) : '\n' ∉ c :: rest.take n := by
  intro hmem
  simp only [skipped?] at h
  split at h
  · next hc =>
    obtain ⟨rfl, -⟩ := hc
    obtain rfl := Option.some.inj h
    rcases List.mem_cons.1 hmem with hmem | hmem
    · exact absurd hmem (by decide)
    · exact absurd (of_mem_take_run hmem) (by decide)
  split at h
  · next hblank =>
    obtain rfl := Option.some.inj h
    rcases List.mem_cons.1 hmem with rfl | hmem
    · exact absurd hblank (by decide)
    · exact absurd (of_mem_take_run hmem) (by decide)
  · cases h

theorem break_notMem_of_wordOperator? {c : Char} {rest : List Char} {k : Kind} {n : Nat}
    (h : wordOperator? c rest = some (k, n)) : '\n' ∉ c :: rest.take n := by
  unfold wordOperator? at h
  split at h
  · next hc =>
    obtain ⟨rfl, hletters⟩ := hc
    obtain ⟨tail, rfl⟩ := List.isPrefixOf_iff_prefix.1 hletters
    cases h
    exact List.not_mem_cons_of_ne_of_not_mem (by decide) (by simp)
  split at h
  · next hc =>
    obtain ⟨rfl, hletters⟩ := hc
    obtain ⟨tail, rfl⟩ := List.isPrefixOf_iff_prefix.1 hletters
    cases h
    exact List.not_mem_cons_of_ne_of_not_mem (by decide) (by simp)
  · cases h

theorem break_notMem_of_word? {c : Char} {rest : List Char} {n : Nat}
    (h : word? c rest = some n) : '\n' ∉ c :: rest.take n := by
  unfold word? at h
  split at h
  · next hword =>
    obtain rfl := Option.some.inj h
    intro hmem
    rcases List.mem_cons.1 hmem with rfl | hmem
    · exact absurd hword (by decide)
    · exact absurd (of_mem_take_run hmem) (by decide)
  · cases h

/-- Only line breaks and quoted texts that are found hold line breaks. -/
theorem break_notMem_of_find {expected : Expected} {c : Char} {rest : List Char} {k : Kind}
    {n : Nat} (h : find expected c rest = .token k n) (hnewline : k ≠ .newline)
    (hstring : k ≠ .string) : '\n' ∉ c :: rest.take n := by
  by_cases hoperator : expected = .operator
  · subst hoperator
    obtain ⟨hskip, hwanted⟩ := find_eq_token_iff.1 h
    rcases Option.or_eq_some_iff.1 hwanted with hword | ⟨-, hwanted⟩
    · exact break_notMem_of_wordOperator? hword
    rcases Option.or_eq_some_iff.1 hwanted with hsign | ⟨-, hwanted⟩
    · exact Piece.break_notMem_of_extent (extent_of_signOperator? hskip hsign) hnewline hstring
    split at hwanted
    · next hparen =>
      subst hparen
      cases hwanted
      simp
    · exact Piece.break_notMem_of_extent (extent_of_separator? hwanted) hnewline hstring
  · cases operandFound_of_find h hoperator with
    | number found =>
      exact Piece.break_notMem_of_extent (extent_of_number? found) hnewline hstring
    | text => exact absurd rfl hstring
    | word found => exact break_notMem_of_word? found
    | minus sign | opening sign =>
      subst sign
      simp
    | separator found =>
      exact Piece.break_notMem_of_extent (extent_of_separator? found) hnewline hstring

theorem Tiles.breaks {expected : Expected} {ps : List Piece} {cs : List Char}
    (h : Tiles expected ps cs) : ∀ p ∈ ps, '\n' ∈ p.text → p.Breaks := by
  induction h with
  | nil => simp
  | skip skips _ ih =>
    refine List.forall_mem_cons.2 ⟨fun hmem => ?_, ih⟩
    exact absurd hmem (break_notMem_of_skipped? skips)
  | @token expected c rest k n ps finds _ ih =>
    refine List.forall_mem_cons.2 ⟨fun hmem => ?_, ih⟩
    by_cases hnewline : k = .newline
    · exact .inl (congrArg Role.token hnewline)
    by_cases hstring : k = .string
    · exact .inr (congrArg Role.token hstring)
    exact absurd hmem (break_notMem_of_find finds hnewline hstring)

end FrontEnd.Strict

namespace FrontEnd

/-! ## The tokens of a front end in their place -/

/-- The token that a front end makes of a piece in its place: one puts it on the line of its last
character, the other on the line of its first. -/
def tokenAt? : FrontEnd → Piece.Placed → Option Token
  | descent, p => p.token?
  | grammar, p => p.piece.lexeme?.map fun l => ⟨l.1, l.2, 1 + lineBreaks p.before⟩

/-- The tokens that a front end makes of pieces that stand after others. -/
def tokens (frontEnd : FrontEnd) (before ps : List Piece) : List Token :=
  (Piece.placed (before.flatMap (·.text)) ps).filterMap frontEnd.tokenAt?

/-- The cut of a source text that a front end makes. -/
def Cuts (cs : List Char) : FrontEnd → List Piece → Prop
  | descent, ps => Piece.Tiles ps cs
  | grammar, ps => Strict.Tiles .statement ps cs

/-- How many lines below its first character a front end puts a token. -/
def below : FrontEnd → Token → Int
  | descent, t => lineBreaks t.lexeme.toList
  | grammar, _ => 0

variable {frontEnd : FrontEnd}

theorem map_tokenAt? (frontEnd : FrontEnd) (p : Piece.Placed) :
    (frontEnd.tokenAt? p).map (fun t => (t.kind, t.lexeme)) = p.piece.lexeme? := by
  cases frontEnd with
  | descent => exact Piece.map_token? p
  | grammar =>
    rw [tokenAt?, Option.map_map]
    exact Option.map_id'

theorem eq_of_tokenAt? {before : List Char} {p : Piece} {t : Token}
    (h : frontEnd.tokenAt? ⟨before, p⟩ = some t) : p = ⟨.token t.kind, t.lexeme.toList⟩ := by
  have hmap := map_tokenAt? frontEnd ⟨before, p⟩
  rw [h] at hmap
  exact Piece.lexeme?_eq_some_iff.1 hmap.symm

theorem tokens_cons (frontEnd : FrontEnd) (before : List Piece) (p : Piece) (ps : List Piece) :
    frontEnd.tokens before (p :: ps) =
      (frontEnd.tokenAt? ⟨before.flatMap (·.text), p⟩).toList ++
        frontEnd.tokens (before ++ [p]) ps := by
  simp only [tokens, Piece.placed, List.filterMap_cons, List.flatMap_append, List.flatMap_cons,
    List.flatMap_nil, List.append_nil]
  cases frontEnd.tokenAt? ⟨before.flatMap (·.text), p⟩ <;> rfl

theorem tokens_append (frontEnd : FrontEnd) (before ps qs : List Piece) :
    frontEnd.tokens before (ps ++ qs) =
      frontEnd.tokens before ps ++ frontEnd.tokens (before ++ ps) qs := by
  induction ps generalizing before with
  | nil => rw [List.nil_append, List.append_nil]; rfl
  | cons p ps ih =>
    rw [List.cons_append, tokens_cons, tokens_cons, ih, List.append_assoc, List.append_assoc,
      List.singleton_append]

theorem exists_of_tokens_eq_cons {before ps : List Piece} {t : Token} {ts : List Token}
    (h : frontEnd.tokens before ps = t :: ts) :
    ∃ qs p rs, ps = qs ++ p :: rs ∧ frontEnd.tokens before qs = [] ∧
      frontEnd.tokenAt? ⟨(before ++ qs).flatMap (·.text), p⟩ = some t ∧
      frontEnd.tokens (before ++ qs ++ [p]) rs = ts := by
  induction ps generalizing before with
  | nil => cases h
  | cons p ps ih =>
    rw [tokens_cons] at h
    cases htoken : frontEnd.tokenAt? ⟨before.flatMap (·.text), p⟩ with
    | some t' =>
      rw [htoken] at h
      cases h
      exact ⟨[], p, ps, rfl, rfl, by rwa [List.append_nil], by rw [List.append_nil]; rfl⟩
    | none =>
      rw [htoken] at h
      obtain ⟨qs, q, rs, rfl, hnone, hq, hrest⟩ := ih h
      refine ⟨p :: qs, q, rs, rfl, ?_, ?_, ?_⟩
      · rw [tokens_cons, htoken, hnone]
        rfl
      · rwa [List.append_assoc, List.singleton_append] at hq
      · rwa [List.append_assoc before, List.singleton_append] at hrest

theorem exists_of_tokens_eq_append {before ps : List Piece} {ts us : List Token}
    (h : frontEnd.tokens before ps = ts ++ us) :
    ∃ qs rs, ps = qs ++ rs ∧ frontEnd.tokens before qs = ts ∧
      frontEnd.tokens (before ++ qs) rs = us := by
  induction ts generalizing before ps with
  | nil => exact ⟨[], ps, rfl, rfl, by rwa [List.append_nil]⟩
  | cons t ts ih =>
    obtain ⟨qs, p, rs, rfl, hnone, ht, hrest⟩ := exists_of_tokens_eq_cons h
    obtain ⟨qs', rs', rfl, hqs', hrs'⟩ := ih hrest
    refine ⟨qs ++ p :: qs', rs', by simp, ?_, ?_⟩
    · rw [tokens_append, hnone, tokens_cons, ht, hqs']
      rfl
    · rwa [List.append_assoc, List.append_assoc, List.singleton_append] at hrs'

/-- A token among pieces is one of the tokens made of them. -/
theorem exists_mem_tokens {p : Piece} {ps : List Piece} {k : Kind} (before : List Piece)
    (hp : p ∈ ps) (hrole : p.role = .token k) :
    ∃ t ∈ frontEnd.tokens before ps, t.kind = k := by
  obtain ⟨qs, rs, rfl⟩ := List.append_of_mem hp
  have hmap := map_tokenAt? frontEnd ⟨(before ++ qs).flatMap (·.text), p⟩
  rw [Piece.lexeme?, hrole] at hmap
  obtain ⟨t, ht, hkind⟩ := Option.map_eq_some_iff.1 hmap
  refine ⟨t, ?_, congrArg Prod.fst hkind⟩
  rw [tokens_append, tokens_cons, ht]
  exact List.mem_append_right _ List.mem_cons_self

/-! ## The cut of a source text -/

variable {cs : List Char} {ps : List Piece}

theorem Cuts.flatMap_text (h : frontEnd.Cuts cs ps) : ps.flatMap (·.text) = cs := by
  cases frontEnd with
  | descent => exact Piece.Tiles.flatMap_text h
  | grammar => exact Strict.Tiles.flatMap_text h

/-- A piece with a line break is one of those that have them, or it is at the end of the source. -/
theorem Cuts.breaks (h : frontEnd.Cuts cs ps) {p : Piece} (hp : p ∈ ps) (hmem : '\n' ∈ p.text) :
    p.Breaks ∨ p.role = .unterminated ∧ p ∉ ps.dropLast := by
  cases frontEnd with
  | descent =>
    by_cases hrole : p.role = .unterminated
    · exact .inr ⟨hrole, fun hlast => Piece.Tiles.ne_unterminated h p hlast hrole⟩
    · obtain ⟨next, hmaximal⟩ := Piece.Tiles.exists_maximal h hp
      exact .inl (hmaximal.breaks hrole hmem)
  | grammar => exact .inl (Strict.Tiles.breaks h p hp hmem)

theorem Cuts.line_of_tokenAt? (h : frontEnd.Cuts cs ps) {p : Piece} (hp : p ∈ ps)
    {before : List Char} {t : Token} (ht : frontEnd.tokenAt? ⟨before, p⟩ = some t)
    (hnewline : t.kind ≠ .newline) : t.line = 1 + lineBreaks before + frontEnd.below t := by
  cases frontEnd with
  | descent =>
    obtain rfl := eq_of_tokenAt? ht
    obtain ⟨next, hmaximal⟩ := Piece.Tiles.exists_maximal h hp
    obtain ⟨c, rest, htext, hextent⟩ := hmaximal.extent_eq
    have hlast := Piece.lineBreaks_dropLast hextent hnewline
    rw [List.take_left, ← htext] at hlast
    have hline := congrArg Token.line (Option.some.inj ht)
    simp only [lineBreaks_append, hlast] at hline
    rw [below, ← hline, Int.add_assoc]
  | grammar =>
    obtain ⟨l, -, rfl⟩ := Option.map_eq_some_iff.1 ht
    exact (Int.add_zero _).symm

end FrontEnd

/-! ## Statements as slices of the tokens -/

namespace FrontEnd

open Recovering (Located Accounts Boundary)

/-- The statements that tokens spell are slices of these tokens. -/
theorem exists_accounts_of_writes {body ts : List Token} {statements : List Node}
    (h : Writes statements ts) (hcanonical : ∀ s ∈ statements, s.Canonical) :
    ∀ {before : List Token}, Boundary before → before ++ ts = body →
      ∃ found : List (Located body), Accounts before.length True statements found := by
  induction h with
  | nil =>
    intro before _ hbody
    exact ⟨[], .nil fun _ => by simp [← hbody]⟩
  | @separator t statements ts kind _ ih =>
    intro before _ hbody
    have hboundary : Boundary (before ++ [t]) :=
      Recovering.boundary_append (Kind.isSeparator_iff.2 kind)
    obtain ⟨found, hfound⟩ := ih hcanonical hboundary (by simpa using hbody)
    exact ⟨found, hfound.separator hbody fun _ => ⟨trivial, kind⟩⟩
  | @last s ts spells =>
    intro before hboundary hbody
    let l : Located body := ⟨s, before, ts, [], by rw [List.append_nil, hbody],
      hcanonical s List.mem_cons_self, spells, .inl hboundary, .inl rfl⟩
    have hstop : body.length = before.length + ts.length := by rw [← hbody, List.length_append]
    exact ⟨[l], .cons l (.nil fun _ => Nat.le_of_eq hstop)⟩
  | @cons s ts t statements more spells kind _ ih =>
    intro before hboundary hbody
    rw [← List.append_assoc] at hbody
    let l : Located body := ⟨s, before, ts, t :: more, hbody, hcanonical s List.mem_cons_self,
      spells, .inl hboundary, .inr ⟨t, rfl, kind⟩⟩
    have hnext : Boundary (before ++ ts ++ [t]) :=
      Recovering.boundary_append (Kind.isSeparator_iff.2 kind)
    obtain ⟨found, hfound⟩ := ih (fun s hs => hcanonical s (List.mem_cons_of_mem _ hs)) hnext
      (by simpa using hbody)
    have hstop : (before ++ ts).length = l.stop := List.length_append
    refine ⟨l :: found, .cons l ?_⟩
    rw [← hstop]
    exact hfound.separator hbody fun _ => ⟨trivial, kind⟩

/-- What is read successfully is cut into pieces, and the tokens read are the pieces in their
place. -/
theorem Strict.exists_tiles_of_run {phase : Strict.Phase} {line : Int} {cs : List Char}
    {ts : List Token} {statements : List Node} (h : Strict.Run phase line cs ts statements) :
    ∀ {before : List Piece}, line = 1 + lineBreaks (before.flatMap (·.text)) →
      ∃ ps, Strict.Tiles phase.expected ps cs ∧ FrontEnd.grammar.tokens before ps = ts := by
  induction h with
  | done =>
    intro before _
    exact ⟨[], .nil, rfl⟩
  | @skip phase line c rest n ts statements skips _ ih =>
    intro before hline
    let p : Piece := ⟨if c = '/' then .comment else .blank, c :: rest.take n⟩
    have hbreaks : lineBreaks p.text = 0 := lineBreaks_eq_zero (break_notMem_of_skipped? skips)
    obtain ⟨ps, htiles, htokens⟩ := @ih (before ++ [p]) (by
      simp only [List.flatMap_append, List.flatMap_cons, List.flatMap_nil, List.append_nil,
        lineBreaks_append, hbreaks, hline, Int.add_zero])
    refine ⟨p :: ps, .skip skips htiles, ?_⟩
    have hnone : FrontEnd.grammar.tokenAt? ⟨before.flatMap (·.text), p⟩ = none := by
      by_cases hc : c = '/' <;> simp [tokenAt?, Piece.lexeme?, p, hc]
    rw [tokens_cons, hnone, htokens]
    rfl
  | @token phase after line c rest k n ts ended statements finds steps _ ih =>
    intro before hline
    let p : Piece := ⟨.token k, c :: rest.take n⟩
    obtain ⟨ps, htiles, htokens⟩ := @ih (before ++ [p]) (by
      simp only [List.flatMap_append, List.flatMap_cons, List.flatMap_nil, List.append_nil,
        lineBreaks_append, hline, Int.add_assoc, p])
    rw [expected_of_step steps] at htiles
    refine ⟨p :: ps, .token finds htiles, ?_⟩
    rw [tokens_cons, htokens, hline]
    rfl

/-- The statements of a front end, if there are any, are slices of the tokens of its cut. -/
theorem exists_slices (source : String) (frontEnd : FrontEnd) :
    (parse source frontEnd).statements = [] ∨
      ∃ ps, frontEnd.Cuts source.toList ps ∧
        ∃ found : List (Located (frontEnd.tokens [] ps)),
          found.map Located.node = (parse source frontEnd).statements ∧
          found.Pairwise fun a b => a.stop ≤ b.start := by
  cases frontEnd with
  | descent =>
    right
    have hbody : (Scan.ofSource source).body =
        FrontEnd.descent.tokens [] (Piece.ofChars source.toList) := by
      rw [Scan.ofSource_eq_placed]
      rfl
    obtain ⟨found, hfound⟩ := @Recovering.exists_accounts _ (Scan.ofSource source).final
      (Scan.ofSource source).body .between [] [] (.between (.inl rfl)) hbody
    exact ⟨_, Piece.tiles_ofChars _, found, hfound.nodes, hfound.ordered⟩
  | grammar =>
    simp only [parse, Strict.ofSource]
    split
    · exact .inl rfl
    · next ts statements hread =>
      split
      · exact .inl rfl
      · right
        have hrun := Strict.run_of_read hread
        obtain ⟨hwrites, hcanonical⟩ := Strict.writes_of_run hrun
        obtain ⟨ps, htiles, rfl⟩ := @Strict.exists_tiles_of_run _ 1 _ ts statements hrun [] rfl
        obtain ⟨found, hfound⟩ := exists_accounts_of_writes hwrites hcanonical (.inl rfl) rfl
        exact ⟨ps, htiles, found, hfound.nodes, hfound.ordered⟩

end FrontEnd

namespace FrontEnd

/-! ## Statements as stretches of the source -/

/-- A statement with the stretch of the source text that a front end read it from. The stretch
starts with the first token that spells the statement, and stands where a statement may start and
end. -/
structure Standing (frontEnd : FrontEnd) (source : String) where
  node : Node
  before : List Piece
  pieces : List Piece
  after : List Piece
  cut : frontEnd.Cuts source.toList (before ++ pieces ++ after)
  canonical : node.Canonical
  spells : node.Spells (frontEnd.tokens before pieces)
  starts : ∃ p ∈ pieces.head?, p.lexeme?.isSome = true
  opens : Recovering.Opens (frontEnd.tokens [] before) (frontEnd.tokens before pieces)
  closes : Recovering.Closes (frontEnd.tokens (before ++ pieces) after)

namespace Standing

variable {frontEnd : FrontEnd} {source : String}

/-- The characters before the first one of the statement. -/
def start (s : Standing frontEnd source) : Nat := (s.before.flatMap (·.text)).length

/-- The characters up to the last one of the statement. -/
def stop (s : Standing frontEnd source) : Nat := ((s.before ++ s.pieces).flatMap (·.text)).length

/-- The line of the first character of the statement: one more than the line breaks before it. -/
def line (s : Standing frontEnd source) : Int := 1 + lineBreaks (source.toList.take s.start)

theorem line_eq (s : Standing frontEnd source) :
    s.line = 1 + lineBreaks (s.before.flatMap (·.text)) := by
  rw [line, start, ← s.cut.flatMap_text, List.append_assoc, List.flatMap_append, List.take_left]

/-- No line break stands between the first character of a statement and its leftmost leaf. -/
theorem lineBreaks_opening (s : Standing frontEnd source) {opening rest : List Piece} {p : Piece}
    (hpieces : s.pieces = opening ++ p :: rest)
    (hkinds : ∀ t ∈ frontEnd.tokens s.before opening, t.kind = .leftParen ∨ t.kind = .printWord) :
    lineBreaks (opening.flatMap (·.text)) = 0 := by
  refine Piece.lineBreaks_flatMap_text fun q hq hbreak => ?_
  have hopens : ∀ k, q.role = .token k → k = .leftParen ∨ k = .printWord := by
    intro k hrole
    obtain ⟨t, ht, rfl⟩ := exists_mem_tokens s.before hq hrole
    exact hkinds t ht
  have hmem : q ∈ (s.before ++ s.pieces ++ s.after).dropLast := by
    rw [hpieces, List.append_assoc, List.append_assoc, List.dropLast_append_of_ne_nil (by simp),
      List.dropLast_append_of_ne_nil (by simp)]
    exact List.mem_append_right _ (List.mem_append_left _ hq)
  rcases s.cut.breaks (List.dropLast_subset _ hmem) hbreak with (hrole | hrole) | ⟨-, hlast⟩
  · exact absurd (hopens _ hrole) (by decide)
  · exact absurd (hopens _ hrole) (by decide)
  · exact hlast hmem

/-- A statement is on the line of its first character, or below it if its leftmost leaf is, and only
a text has line breaks there. -/
theorem exists_leaf (s : Standing frontEnd source) :
    ∃ leaf, s.node.line = .ok (s.line + frontEnd.below leaf) ∧
      ('\n' ∈ leaf.lexeme.toList → leaf.kind = .string) ∧
      (s.node.leading = .literal leaf ∨
        ∃ e, s.node.leading = .unary leaf e ∧ '\n' ∉ leaf.lexeme.toList) := by
  obtain ⟨opening, leaf, rest, htokens, hkinds, hline, hleading⟩ := s.spells.exists_leading
  have hkind : leaf.kind.isLiteral = true ∨ leaf.kind.isSign = true :=
    hleading.imp (s.canonical.leadingKind.1 leaf) fun ⟨e, h⟩ => s.canonical.leadingKind.2 leaf e h
  have hnewline : leaf.kind ≠ .newline := by
    intro hk
    rw [hk] at hkind
    exact absurd hkind (by decide)
  obtain ⟨qs, ps, hpieces, hopening, hps⟩ := exists_of_tokens_eq_append htokens
  obtain ⟨blanks, p, after, rfl, hblanks, hp, -⟩ := exists_of_tokens_eq_cons hps
  rw [← List.append_assoc] at hpieces
  have hmem : p ∈ s.before ++ s.pieces ++ s.after := by simp [hpieces]
  have hstring : '\n' ∈ leaf.lexeme.toList → leaf.kind = .string := by
    intro hbreak
    have hbreaks := @Cuts.breaks _ _ _ s.cut p hmem
    rw [eq_of_tokenAt? hp] at hbreaks
    rcases hbreaks hbreak with (hrole | hrole) | ⟨hrole, -⟩
    · exact absurd (Role.token.inj hrole) hnewline
    · exact Role.token.inj hrole
    · cases hrole
  have hbreaks : lineBreaks ((qs ++ blanks).flatMap (·.text)) = 0 := by
    refine s.lineBreaks_opening hpieces ?_
    rwa [tokens_append, hopening, hblanks, List.append_nil]
  have hleaf := s.cut.line_of_tokenAt? hmem hp hnewline
  rw [List.append_assoc, List.flatMap_append, lineBreaks_append, hbreaks, Int.add_zero,
    ← s.line_eq] at hleaf
  refine ⟨leaf, by rw [hline, hleaf], hstring, hleading.imp_right ?_⟩
  rintro ⟨e, he⟩
  refine ⟨e, he, fun hbreak => ?_⟩
  have hsign := s.canonical.leadingKind.2 leaf e he
  rw [hstring hbreak] at hsign
  cases hsign

/-- The tokens before a stretch are fewer than those up to any later place of the cut. -/
theorem length_tokens_lt (s : Standing frontEnd source) {more rest : List Piece} (hne : more ≠ [])
    (h : s.before ++ more ++ rest = s.before ++ s.pieces ++ s.after) :
    (frontEnd.tokens [] s.before).length < (frontEnd.tokens [] (s.before ++ more)).length := by
  obtain ⟨p, more, rfl⟩ := List.exists_cons_of_ne_nil hne
  obtain ⟨q, hq, hlexeme⟩ := s.starts
  obtain ⟨pieces, hpieces⟩ : ∃ pieces, s.pieces = q :: pieces := by
    rcases hs : s.pieces with _ | ⟨q', pieces⟩ <;> simp_all
  rw [hpieces, List.append_assoc, List.append_assoc, List.append_cancel_left_eq] at h
  obtain rfl : p = q := by injection h
  have hmap := map_tokenAt? frontEnd ⟨s.before.flatMap (·.text), p⟩
  obtain ⟨l, hl⟩ := Option.isSome_iff_exists.1 hlexeme
  rw [hl] at hmap
  obtain ⟨t, ht, -⟩ := Option.map_eq_some_iff.1 hmap
  rw [tokens_append, List.nil_append, tokens_cons, ht]
  simp

/-- Stretches of one cut follow one another as their tokens do. -/
theorem stop_le_start {a b : Standing frontEnd source}
    (hcut : a.before ++ a.pieces ++ a.after = b.before ++ b.pieces ++ b.after)
    (hle : (frontEnd.tokens [] (a.before ++ a.pieces)).length ≤
      (frontEnd.tokens [] b.before).length) : a.stop ≤ b.start := by
  have ha : a.before ++ a.pieces <+: b.before ++ b.pieces ++ b.after := ⟨a.after, hcut⟩
  have hb : b.before <+: b.before ++ b.pieces ++ b.after := ⟨b.pieces ++ b.after, by simp⟩
  rcases List.prefix_or_prefix_of_prefix ha hb with ⟨more, hmore⟩ | ⟨more, hmore⟩
  · have hlength := congrArg (fun ps => (ps.flatMap Piece.text).length) hmore
    rw [List.flatMap_append, List.length_append] at hlength
    exact Nat.le.intro hlength
  · by_cases hnil : more = []
    · rw [stop, start, ← hmore, hnil, List.append_nil]
    · rw [← hmore] at hcut hle
      have := b.length_tokens_lt hnil hcut
      omega

end Standing

open Recovering (Located)

/-- A slice of the tokens of a cut is made of a stretch of its pieces that starts with a token. -/
theorem exists_pieces_of_slice {frontEnd : FrontEnd} {ps : List Piece} {t : Token}
    {earlier ts later : List Token} (h : frontEnd.tokens [] ps = earlier ++ (t :: ts) ++ later) :
    ∃ before p rest after, ps = before ++ p :: rest ++ after ∧ p.lexeme?.isSome = true ∧
      frontEnd.tokens [] before = earlier ∧ frontEnd.tokens before (p :: rest) = t :: ts ∧
      frontEnd.tokens (before ++ p :: rest) after = later := by
  rw [List.append_assoc] at h
  obtain ⟨front, others, rfl, hfront, hothers⟩ := exists_of_tokens_eq_append h
  rw [List.nil_append, List.cons_append] at hothers
  obtain ⟨blanks, p, others, rfl, hblanks, hp, hothers⟩ := exists_of_tokens_eq_cons hothers
  obtain ⟨rest, after, rfl, hrest, hafter⟩ := exists_of_tokens_eq_append hothers
  refine ⟨front ++ blanks, p, rest, after, by simp, ?_, ?_, ?_, ?_⟩
  · rw [← map_tokenAt? frontEnd ⟨(front ++ blanks).flatMap (·.text), p⟩, hp]
    rfl
  · rw [tokens_append, List.nil_append, hfront, hblanks, List.append_nil]
  · rw [tokens_cons, hp, hrest]
    rfl
  · rwa [List.append_assoc (front ++ blanks), List.singleton_append] at hafter

/-- A slice of the tokens of a cut is a stretch of the source. -/
theorem exists_standing {frontEnd : FrontEnd} {source : String} {ps : List Piece}
    (hcut : frontEnd.Cuts source.toList ps) (l : Located (frontEnd.tokens [] ps)) :
    ∃ s : Standing frontEnd source, s.node = l.node ∧
      s.before ++ s.pieces ++ s.after = ps ∧
      frontEnd.tokens [] s.before = l.before ∧
      frontEnd.tokens s.before s.pieces = l.tokens := by
  obtain ⟨t, ts, htokens⟩ : ∃ t ts, l.tokens = t :: ts := by
    obtain ⟨opening, leaf, rest, heq, -⟩ := l.spells.exists_leading
    exact List.exists_cons_of_ne_nil (by simp [heq])
  have hwhole := l.whole
  rw [htokens] at hwhole
  obtain ⟨before, p, rest, after, hps, hlexeme, hbefore, hpieces, hafter⟩ :=
    exists_pieces_of_slice hwhole.symm
  rw [← htokens] at hpieces
  refine ⟨⟨l.node, before, p :: rest, after, hps ▸ hcut, l.canonical, ?_,
    ⟨p, rfl, hlexeme⟩, ?_, ?_⟩, rfl, hps.symm, hbefore, hpieces⟩
  · rw [hpieces]
    exact l.spells
  · rw [hbefore, hpieces]
    exact l.opens
  · rw [hafter]
    exact l.closes

/-- The statements of a front end stand in the source one after another. -/
theorem exists_standings (source : String) (frontEnd : FrontEnd) :
    ∃ found : List (Standing frontEnd source),
      found.map Standing.node = (parse source frontEnd).statements ∧
      found.Pairwise fun a b => a.stop ≤ b.start := by
  rcases exists_slices source frontEnd with hnil | ⟨ps, hcut, slices, hnodes, hordered⟩
  · exact ⟨[], hnil.symm, .nil⟩
  · choose standing hnode hwhole hbefore htokens using exists_standing hcut
    refine ⟨slices.map standing, ?_, List.pairwise_map.2 (hordered.imp fun {a b} hle => ?_)⟩
    · rw [List.map_map, ← hnodes]
      exact List.map_congr_left fun l _ => hnode l
    · refine Standing.stop_le_start ((hwhole a).trans (hwhole b).symm) ?_
      rw [tokens_append, List.nil_append, hbefore, hbefore, htokens, List.length_append]
      exact hle

/-- **A statement is on the line of its first character.** Each statement of a front end stands on a
stretch of the source that starts with its word `print`, parenthesis, operator or literal, and the
stretches follow one another. The strict front end puts a statement on the line of the first
character of its stretch. The recovering one does so if the leftmost leaf is a prefix operator; if
it is a literal, the line breaks of its lexeme are added. So where both read a statement from the
same place on, they differ about its line only if it starts with a text over several lines. -/
theorem exists_standings_lines (source : String) :
    ∃ (recovered : List (Standing .descent source)) (strict : List (Standing .grammar source)),
      recovered.map Standing.node = (parse source .descent).statements ∧
      strict.map Standing.node = (parse source .grammar).statements ∧
      recovered.Pairwise (fun a b => a.stop ≤ b.start) ∧
      strict.Pairwise (fun a b => a.stop ≤ b.start) ∧
      (∀ s ∈ strict, s.node.line = .ok s.line) ∧
      (∀ s ∈ recovered,
        (∃ t, s.node.leading = .literal t ∧
          s.node.line = .ok (s.line + lineBreaks t.lexeme.toList)) ∨
        ∃ op e, s.node.leading = .unary op e ∧ s.node.line = .ok s.line) ∧
      ∀ a ∈ recovered, ∀ b ∈ strict, a.start = b.start → a.node.line ≠ b.node.line →
        ∃ t, a.node.leading = .literal t ∧ t.kind = .string ∧ '\n' ∈ t.lexeme.toList := by
  obtain ⟨recovered, hrecovered, hordered⟩ := exists_standings source .descent
  obtain ⟨strict, hstrict, hordered'⟩ := exists_standings source .grammar
  have hlines : ∀ s : Standing .grammar source, s.node.line = .ok s.line := by
    intro s
    obtain ⟨leaf, hline, -⟩ := s.exists_leaf
    rwa [below, Int.add_zero] at hline
  refine ⟨recovered, strict, hrecovered, hstrict, hordered, hordered', fun s _ => hlines s, ?_, ?_⟩
  · intro s _
    obtain ⟨leaf, hline, -, hleaf | ⟨e, hleaf, hbreak⟩⟩ := s.exists_leaf
    · exact .inl ⟨leaf, hleaf, hline⟩
    · rw [below, lineBreaks_eq_zero hbreak, Int.add_zero] at hline
      exact .inr ⟨leaf, e, hleaf, hline⟩
  · intro a _ b _ hstart hne
    obtain ⟨leaf, hline, hstring, hleaf⟩ := a.exists_leaf
    have hbreak : '\n' ∈ leaf.lexeme.toList := by
      by_contra hnone
      rw [below, lineBreaks_eq_zero hnone, Int.add_zero, Standing.line, hstart] at hline
      exact hne (hline.trans (hlines b).symm)
    rcases hleaf with hleaf | ⟨e, -, hnone⟩
    · exact ⟨leaf, hleaf, hstring hbreak, hbreak⟩
    · exact absurd hbreak hnone

end FrontEnd

end Scriptlet
