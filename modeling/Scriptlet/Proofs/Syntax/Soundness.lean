import Scriptlet.Proofs.Syntax.Completeness
import Scriptlet.Proofs.Syntax.Readings

/-!
# What the recovering front end reads is there

For every token list, also one full of mistakes, each statement that the front end gives is one of
the grammar and was read from a slice of the tokens of its own (`Located`): the slice starts where a
statement may start and ends where one may end, and the slices stand in the order of the statements
(`exists_located`). Where nothing is reported, what stands outside the slices are separators, and
the whole list spells the statements (`writes_of_read`).

The invariant (`At`) splits the tokens seen so far into those that are done with and those of the
statement being read. A step either adds a token to the statement being read, or passes over one, or
gives the statement, or gives it up, with a complaint or beyond the nesting limit (`step_moves`);
the run follows by induction on the tokens that are left (`exists_accounts`).
-/

namespace Scriptlet.FrontEnd.Recovering

open Reading (ReadsStatement)

/-- A statement may start after these tokens: they are none, or the last one is a separator. -/
def Boundary (before : List Token) : Prop :=
  before = [] ∨ ∃ t, before.getLast? = some t ∧ (t.kind = .semicolon ∨ t.kind = .newline)

/-- A statement may start with these tokens after those: it is at a boundary, or it starts with the
word `print`. -/
def Opens (before tokens : List Token) : Prop :=
  Boundary before ∨ ∃ t, tokens.head? = some t ∧ t.kind = .printWord

/-- A statement may end before these tokens: they are none, or the first one is a separator. -/
def Closes (after : List Token) : Prop :=
  after = [] ∨ ∃ t, after.head? = some t ∧ (t.kind = .semicolon ∨ t.kind = .newline)

/-- A statement of the grammar with the slice of a token list that spells it. -/
structure Located (body : List Token) where
  node : Node
  before : List Token
  tokens : List Token
  after : List Token
  whole : before ++ tokens ++ after = body
  canonical : node.Canonical
  spells : node.Spells tokens
  opens : Opens before tokens
  closes : Closes after

namespace Located

variable {body : List Token}

/-- The index of the first token of the slice. -/
def start (l : Located body) : Nat := l.before.length

/-- The index after the last token of the slice. -/
def stop (l : Located body) : Nat := l.before.length + l.tokens.length

/-- The slice holds the token at an index. -/
def Holds (l : Located body) (i : Nat) : Prop := l.start ≤ i ∧ i < l.stop

end Located

/-- A word that can start a statement, `print` included, cannot start an expression. -/
theorem start_step_of_startsStatement {t : Token} (h : t.kind.startsStatement = true) :
    Reading.start.step t = none := by
  have hkind : t.kind.isLiteral = false ∧ t.kind.isSign = false ∧ t.kind ≠ .leftParen := by
    revert h
    cases t.kind <;> decide
  obtain ⟨hliteral, hsign, hparen⟩ := hkind
  simp [Reading.start, Reading.step, hliteral, hsign, hparen]

/-! ## The statement being read -/

/-- Where the front end stands after the tokens seen: `before` are done with, `current` are those of
the statement being read. -/
inductive At : Phase → List Token → List Token → Prop
  | between {before : List Token} (boundary : Boundary before) : At .between before []
  | within {printing : Bool} {r : Reading} {before current : List Token}
      (opens : Opens before current) (reads : ReadsStatement printing r current) :
      At (.within printing r) before current
  | beyond (byOne : Bool) (before : List Token) : At (.beyond byOne) before []
  | skipping (before : List Token) : At .skipping before []

/-- No statement has been given up that is not done with. -/
def Phase.OnTrack : Phase → Prop
  | between => True
  | within _ _ => True
  | beyond _ => False
  | skipping => False

theorem boundary_append {before : List Token} {t : Token} (h : t.kind.isSeparator = true) :
    Boundary (before ++ [t]) :=
  .inr ⟨t, by simp, Kind.isSeparator_iff.1 h⟩

theorem Opens.append {before tokens : List Token} (h : Opens before tokens) (t : Token) :
    Opens before (tokens ++ [t]) := by
  rcases h with h | ⟨u, hu, hk⟩
  · exact .inl h
  · exact .inr ⟨u, by rw [List.head?_append, hu]; rfl, hk⟩

/-! ## One step -/

/-- What reading a token can do. -/
inductive Moves (phase : Phase) (before current : List Token) (t : Token) :
    Phase × List Event → Prop
  | takes {phase' : Phase} (stands : At phase' before (current ++ [t])) :
      Moves phase before current t (phase', [])
  | passes {phase' : Phase} (idle : current = []) (stands : At phase' (before ++ [t]) [])
      (cause : ¬phase.OnTrack ∨ phase' = .between ∧ t.kind.isSeparator = true) :
      Moves phase before current t (phase', [])
  | gives {s : Node} (canonical : s.Canonical) (spells : s.Spells current)
      (opens : Opens before current) (kind : t.kind.isSeparator = true) :
      Moves phase before current t (.between, [.statement s])
  | overruns (byOne : Bool) : Moves phase before current t (.beyond byOne, [])
  | complains {phase' : Phase} {cs : List Complaint} (any : cs ≠ [])
      (stands : At phase' (before ++ current ++ [t]) []) :
      Moves phase before current t (phase', cs.map (.complaint t))

variable {phase : Phase} {before current : List Token} {t : Token}

theorem complain_moves {cs : List Complaint} (hcs : cs ≠ []) :
    Moves phase before current t (complain t cs) := by
  unfold complain
  split
  · next h => exact .complains hcs (.between (boundary_append h))
  · exact .complains hcs (.skipping _)

theorem within_moves {printing : Bool} {r : Reading} (opens : Opens before current)
    (reads : ReadsStatement printing r current) :
    Moves phase before current t (within printing r t) := by
  unfold within
  split
  · next hsep =>
    split
    · next e hfin =>
      obtain ⟨hcanonical, hspells⟩ := reads.finished hfin
      exact .gives hcanonical hspells opens hsep
    · exact complain_moves (complaints_ne_nil r)
  · split
    · next r' hstep =>
      split
      · exact .takes (.within (opens.append t) (reads.step hstep))
      · exact .overruns _
    · exact complain_moves (complaints_ne_nil r)

theorem overrun_moves (byOne : Bool) :
    Moves (.beyond byOne) before [] t (overrun byOne t) := by
  unfold overrun
  split
  · exact .passes rfl (.beyond false _) (.inl id)
  · exact complain_moves (by simp)

theorem begin_moves (boundary : Boundary before) : Moves phase before [] t (begin t) := by
  unfold begin
  split
  · next hsep => exact .passes rfl (.between (boundary_append hsep)) (.inr ⟨rfl, hsep⟩)
  split
  · next hprint =>
    exact .takes (.within (.inl boundary) ⟨t, [], rfl, hprint, .start⟩)
  · exact within_moves (.inl boundary) Reading.Reads.start

/-- Skipping ends at a separator, at the word `print`, or at a word that is turned down at once. -/
theorem skipping_moves : Moves .skipping before [] t (step .skipping t) := by
  simp only [step]
  split
  · next hstarts =>
    unfold begin
    split
    · next hsep => exact .passes rfl (.between (boundary_append hsep)) (.inl id)
    split
    · next hprint =>
      exact .takes (.within (.inr ⟨t, rfl, hprint⟩) ⟨t, [], rfl, hprint, .start⟩)
    · next hsep hprint =>
      have hnone : Reading.start.step t = none := start_step_of_startsStatement hstarts
      simp only [within, hsep, hnone, Bool.false_eq_true, if_false]
      exact complain_moves (complaints_ne_nil _)
  split
  · next hsep => exact .passes rfl (.between (boundary_append hsep)) (.inl id)
  · exact .passes rfl (.skipping _) (.inl id)

theorem step_moves (h : At phase before current) :
    Moves phase before current t (step phase t) := by
  cases h with
  | between boundary => exact begin_moves boundary
  | within opens reads => exact within_moves opens reads
  | beyond byOne => exact overrun_moves byOne
  | skipping => exact skipping_moves

/-- A statement being read is on track. -/
theorem At.onTrack (h : At phase before (current ++ [t])) : phase.OnTrack := by
  generalize hcurrent : current ++ [t] = tokens at h
  cases h with
  | between | within => trivial
  | beyond | skipping => simp at hcurrent

theorem diagnostics_beyond_ne_nil (byOne : Bool) (rest : List Token) (final : Token) :
    (read (.beyond byOne) rest final).filterMap Event.diagnostic? ≠ [] := by
  obtain ⟨t, ht⟩ := complaint_mem_read_beyond byOne rest final
  exact List.ne_nil_of_mem (mem_diagnostics_of_complaint ht)

/-! ## A run -/

/-- The located statements are the given ones, in order, from an index on; if all went well, nothing
but separators stands outside them. -/
structure Accounts {body : List Token} (first : Nat) (clean : Prop) (statements : List Node)
    (found : List (Located body)) : Prop where
  nodes : found.map Located.node = statements
  later : ∀ l ∈ found, first ≤ l.start
  ordered : found.Pairwise fun a b => a.stop ≤ b.start
  outside : clean → ∀ (i : Nat) (hi : i < body.length), first ≤ i → (∀ l ∈ found, ¬l.Holds i) →
    body[i].kind = .semicolon ∨ body[i].kind = .newline

namespace Accounts

variable {body : List Token} {first next : Nat} {clean clean' : Prop} {statements : List Node}
  {found : List (Located body)}

theorem nil (h : clean → body.length ≤ first) :
    Accounts first clean [] ([] : List (Located body)) :=
  ⟨rfl, by simp, .nil, fun hclean i hi hle => absurd (h hclean) (by omega)⟩

/-- Tokens before the located statements may be left out if they are separators. -/
theorem earlier (h : Accounts next clean' statements found) (hle : first ≤ next)
    (hclean : clean → clean' ∧ ∀ (i : Nat) (hi : i < body.length), first ≤ i → i < next →
      body[i].kind = .semicolon ∨ body[i].kind = .newline) :
    Accounts first clean statements found := by
  refine ⟨h.nodes, fun l hl => Nat.le_trans hle (h.later l hl), h.ordered, ?_⟩
  intro hc i hi hfirst hout
  obtain ⟨hclean', hgap⟩ := hclean hc
  by_cases hlt : i < next
  · exact hgap i hi hfirst hlt
  · exact h.outside hclean' i hi (by omega) hout

/-- A separator before the located statements. -/
theorem separator {before rest : List Token} {t : Token}
    (h : Accounts (before ++ [t]).length clean' statements found)
    (hbody : before ++ t :: rest = body)
    (hclean : clean → clean' ∧ (t.kind = .semicolon ∨ t.kind = .newline)) :
    Accounts before.length clean statements found := by
  refine h.earlier (by simp) fun hc => ⟨(hclean hc).1, ?_⟩
  intro i hi hle hlt
  rw [List.length_append, List.length_singleton] at hlt
  obtain rfl : i = before.length := by omega
  subst hbody
  simpa using (hclean hc).2

/-- A statement located before the others. -/
theorem cons (l : Located body) (h : Accounts l.stop clean statements found) :
    Accounts l.start clean (l.node :: statements) (l :: found) := by
  refine ⟨by rw [List.map_cons, h.nodes], ?_, .cons h.later h.ordered, ?_⟩
  · intro l' hl'
    rcases List.mem_cons.1 hl' with rfl | hl'
    · exact Nat.le_refl _
    · have := h.later l' hl'
      simp only [Located.start, Located.stop] at this ⊢
      omega
  · intro hc i hi hfirst hout
    have hstop : l.stop ≤ i := by
      have := hout l List.mem_cons_self
      simp only [Located.Holds] at this
      omega
    exact h.outside hc i hi hstop fun l' hl' => hout l' (List.mem_cons_of_mem _ hl')

end Accounts

/-- The statements of a run were read from slices of the tokens, from where the run stands on. -/
theorem exists_accounts {body : List Token} (final : Token) :
    ∀ {rest : List Token} {phase : Phase} {before current : List Token},
      At phase before current → before ++ current ++ rest = body →
      ∃ found : List (Located body), Accounts before.length
        (phase.OnTrack ∧ (read phase rest final).filterMap Event.diagnostic? = [])
        ((read phase rest final).filterMap Event.statement?) found := by
  intro rest
  induction rest with
  | nil =>
    intro phase before current hat hbody
    rw [List.append_nil] at hbody
    cases hat with
    | between => exact ⟨[], .nil fun _ => by simp [← hbody]⟩
    | beyond | skipping => exact ⟨[], .nil fun hc => hc.1.elim⟩
    | @within printing r _ _ opens reads =>
      simp only [read, finish]
      split
      · next e hfin =>
        obtain ⟨hcanonical, hspells⟩ := reads.finished hfin
        let l : Located body := ⟨_, before, current, [], by rw [List.append_nil, hbody], hcanonical,
          hspells, opens, .inl rfl⟩
        have hstop : body.length = before.length + current.length := by
          rw [← hbody, List.length_append]
        exact ⟨[l], .cons l (.nil fun _ => Nat.le_of_eq hstop)⟩
      · rw [statements_complaints]
        exact ⟨[], .nil fun hc => absurd hc.2 (diagnostics_complaints_ne_nil (complaints_ne_nil r))⟩
  | cons t rest ih =>
    intro phase before current hat hbody
    have hmoves : Moves phase before current t (step phase t) := step_moves hat
    simp only [read, List.filterMap_append]
    generalize step phase t = after at hmoves
    cases hmoves with
    | @takes phase' stands =>
      obtain ⟨found, h⟩ := ih stands (by simpa using hbody)
      exact ⟨found, h.earlier (Nat.le_refl _) fun hc => ⟨⟨stands.onTrack, hc.2⟩, by omega⟩⟩
    | @passes phase' idle stands cause =>
      subst idle
      rw [List.append_nil] at hbody
      obtain ⟨found, h⟩ := ih stands (by simpa using hbody)
      refine ⟨found, h.separator hbody fun hc => ?_⟩
      rcases cause with hlost | ⟨rfl, hsep⟩
      · exact absurd hc.1 hlost
      · exact ⟨⟨trivial, hc.2⟩, Kind.isSeparator_iff.1 hsep⟩
    | @gives s canonical spells opens kind =>
      have hsep := Kind.isSeparator_iff.1 kind
      let l : Located body :=
        ⟨s, before, current, t :: rest, hbody, canonical, spells, opens, .inr ⟨t, rfl, hsep⟩⟩
      have hat' : At .between (before ++ current ++ [t]) [] := .between (boundary_append kind)
      obtain ⟨found, h⟩ := ih hat' (by simpa using hbody)
      have hstop : (before ++ current).length = l.stop := List.length_append
      refine ⟨l :: found, .cons l ?_⟩
      rw [← hstop]
      exact h.separator hbody fun hc => ⟨⟨trivial, hc.2⟩, hsep⟩
    | overruns byOne =>
      obtain ⟨found, h⟩ := ih (.beyond byOne (before ++ current ++ [t])) (by simpa using hbody)
      refine ⟨found, h.earlier (by simp) fun hc => ?_⟩
      exact absurd hc.2 (diagnostics_beyond_ne_nil byOne rest final)
    | @complains phase' cs any stands =>
      obtain ⟨found, h⟩ := ih stands (by simpa using hbody)
      rw [statements_complaints, List.nil_append]
      refine ⟨found, h.earlier (by simp) fun hc => ?_⟩
      exact absurd (List.append_eq_nil_iff.1 hc.2).1 (diagnostics_complaints_ne_nil any)

/-- If nothing is reported, the tokens of the statement being read and those that are left spell the
statements. -/
theorem writes_of_read {final : Token} :
    ∀ {rest : List Token} {phase : Phase} {before current : List Token},
      At phase before current → phase.OnTrack →
      (read phase rest final).filterMap Event.diagnostic? = [] →
      Writes ((read phase rest final).filterMap Event.statement?) (current ++ rest) ∧
        ∀ s ∈ (read phase rest final).filterMap Event.statement?, s.Canonical := by
  intro rest
  induction rest with
  | nil =>
    intro phase before current hat htrack hquiet
    cases hat with
    | between => exact ⟨.nil, by simp [read, finish]⟩
    | beyond | skipping => exact htrack.elim
    | @within printing r _ _ opens reads =>
      simp only [read, finish] at hquiet ⊢
      split
      · next e hfin =>
        obtain ⟨hcanonical, hspells⟩ := reads.finished hfin
        rw [List.append_nil]
        exact ⟨.last hspells, by simpa [Event.statement?] using hcanonical⟩
      · next hfin =>
        rw [hfin] at hquiet
        exact absurd hquiet (diagnostics_complaints_ne_nil (complaints_ne_nil r))
  | cons t rest ih =>
    intro phase before current hat htrack hquiet
    have hmoves : Moves phase before current t (step phase t) := step_moves hat
    simp only [read, List.filterMap_append] at hquiet ⊢
    generalize step phase t = after at hmoves hquiet ⊢
    cases hmoves with
    | takes stands =>
      have hnext := ih stands stands.onTrack hquiet
      rwa [List.append_assoc, List.singleton_append] at hnext
    | passes idle stands cause =>
      subst idle
      rcases cause with hlost | ⟨rfl, hsep⟩
      · exact absurd htrack hlost
      · obtain ⟨hwrites, hcanonical⟩ := ih stands trivial hquiet
        exact ⟨.separator (Kind.isSeparator_iff.1 hsep) hwrites, hcanonical⟩
    | gives canonical spells opens kind =>
      have hat' : At .between (before ++ current ++ [t]) [] := .between (boundary_append kind)
      obtain ⟨hwrites, hcanonical⟩ := ih hat' trivial hquiet
      refine ⟨.cons spells (Kind.isSeparator_iff.1 kind) hwrites, fun s' hs' => ?_⟩
      rcases List.mem_cons.1 hs' with rfl | hs'
      · exact canonical
      · exact hcanonical s' hs'
    | overruns byOne => exact absurd hquiet (diagnostics_beyond_ne_nil byOne rest final)
    | complains any stands =>
      exact absurd (List.append_eq_nil_iff.1 hquiet).1 (diagnostics_complaints_ne_nil any)

/-! ## Token lists -/

theorem parse?_eq_some_of_mem {tokens : List Token} (h : ∃ t ∈ tokens, t.kind = .endOfFile) :
    ∃ final, parse? tokens =
      some (ofEvents (read .between (tokens.takeWhile (·.kind != .endOfFile)) final)) := by
  obtain ⟨t, ht, hk⟩ := h
  unfold parse?
  cases hrest : tokens.dropWhile (·.kind != .endOfFile) with
  | nil =>
    have hsplit := List.takeWhile_append_dropWhile (p := (·.kind != .endOfFile)) (l := tokens)
    rw [hrest, List.append_nil] at hsplit
    have hall := List.all_eq_true.1 (List.all_takeWhile (p := (·.kind != .endOfFile)) (l := tokens))
    rw [hsplit] at hall
    simpa [hk] using hall t ht
  | cons final _ => exact ⟨final, rfl⟩

/-- **The statements of any token list were read from slices of it.** The front end gives a result
for every token list that has an end; its statements are of the grammar, spelled by slices of what
comes before the end, which follow one another without overlap, and each starts and ends where a
statement may. If nothing is reported, only separators stand outside the slices. -/
theorem exists_located (tokens : List Token) (h : ∃ t ∈ tokens, t.kind = .endOfFile) :
    ∃ parsed, parse? tokens = some parsed ∧
      ∃ found : List (Located (tokens.takeWhile (·.kind != .endOfFile))),
        found.map Located.node = parsed.statements ∧
        found.Pairwise (fun a b => a.stop ≤ b.start) ∧
        (parsed.diagnostics = [] →
          ∀ (i : Nat) (hi : i < (tokens.takeWhile (·.kind != .endOfFile)).length),
            (∀ l ∈ found, ¬l.Holds i) →
            (tokens.takeWhile (·.kind != .endOfFile))[i].kind = .semicolon ∨
              (tokens.takeWhile (·.kind != .endOfFile))[i].kind = .newline) := by
  obtain ⟨final, hparse⟩ := parse?_eq_some_of_mem h
  obtain ⟨found, hfound⟩ := exists_accounts final (.between (.inl rfl)) rfl
  refine ⟨_, hparse, found, hfound.nodes, hfound.ordered, ?_⟩
  intro hclean i hi hout
  exact hfound.outside ⟨trivial, hclean⟩ i hi (Nat.zero_le i) hout

/-- In `1 + ; print 2` the statement after the broken one has its slice. -/
theorem exists_located_after_mistake :
    ∃ found : List (Located [⟨.number, "1", 1⟩, ⟨.plus, "+", 1⟩, ⟨.semicolon, ";", 1⟩,
        ⟨.printWord, "print", 1⟩, ⟨.number, "2", 1⟩]),
      found.map Located.node = [.print (.literal ⟨.number, "2", 1⟩)] := by
  obtain ⟨parsed, hparse, found, hnodes, -⟩ := exists_located
    [⟨.number, "1", 1⟩, ⟨.plus, "+", 1⟩, ⟨.semicolon, ";", 1⟩, ⟨.printWord, "print", 1⟩,
      ⟨.number, "2", 1⟩, ⟨.endOfFile, "", 1⟩] ⟨⟨.endOfFile, "", 1⟩, by decide, rfl⟩
  obtain rfl := Option.some.inj hparse
  exact ⟨found, hnodes⟩

end Scriptlet.FrontEnd.Recovering
