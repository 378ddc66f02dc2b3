import Scriptlet.Proofs.FrontEnd.Lexemes
import Scriptlet.Proofs.Syntax.Readings
import Scriptlet.Proofs.Syntax.Spellings

/-!
# Successful readings of the strict front end

What one token can do to a phase is said once, in `Phase.Stepped`; a reading without a mistake is
put together from such steps and from what is skipped (`Run`), and the strict front end takes a
program exactly if there is one in which no word of the language is a name (`ofSource_eq_iff`).

The tokens of a reading make its statements by themselves, wherever they were cut
(`readTokens?_of_run`). They do so exactly if they spell these statements and the statements are of
the grammar (`readTokens?_eq_some_iff`): there is no nesting limit here.
-/

namespace Scriptlet.FrontEnd.Strict

open Reading (ReadsStatement)

/-! ## One step -/

/-- What reading a token can do: the phase before, the phase after and the statement that ended. -/
inductive Phase.Stepped (t : Token) : Phase → Phase → List Node → Prop
  | passes (kind : t.kind.isSeparator = true) : Stepped t between between []
  | prints (kind : t.kind = .printWord) : Stepped t between (within true .start) []
  | opens {r : Reading} (step : Reading.start.step t = some r) :
      Stepped t between (within false r) []
  | ends {printing : Bool} {r : Reading} {e : Node} (kind : t.kind.isSeparator = true)
      (finished : r.finished? = some e) :
      Stepped t (within printing r) between [.ofExpression printing e]
  | reads {printing : Bool} {r r' : Reading} (step : r.step t = some r') :
      Stepped t (within printing r) (within printing r') []

variable {phase after : Phase} {t : Token} {ended : List Node}

theorem Phase.stepped_of_step (h : phase.step t = some (after, ended)) :
    Stepped t phase after ended := by
  cases phase with
  | between =>
    simp only [step] at h
    split at h
    · next hseparator =>
      cases h
      exact .passes hseparator
    split at h
    · next hprint =>
      cases h
      exact .prints hprint
    · obtain ⟨r, hr, heq⟩ := Option.map_eq_some_iff.1 h
      cases heq
      exact .opens hr
  | within printing r =>
    simp only [step] at h
    split at h
    · next hseparator =>
      obtain ⟨e, he, heq⟩ := Option.map_eq_some_iff.1 h
      cases heq
      exact .ends hseparator he
    · obtain ⟨r', hr, heq⟩ := Option.map_eq_some_iff.1 h
      cases heq
      exact .reads hr

theorem takes_of_reading_step {printing : Bool} {r r' : Reading} (h : r.step t = some r') :
    takes (Phase.within printing r).expected t.kind = true := by
  cases r with
  | wanting outer inner =>
    simp only [Reading.step] at h
    split at h
    · next hliteral => simp [Phase.expected, takes, hliteral]
    split at h
    · next hsign => simp [Phase.expected, takes, hsign]
    split at h
    · next hparen => simp [Phase.expected, takes, hparen]
    · cases h
  | holding outer waiting operand =>
    simp only [Reading.step] at h
    split at h
    · next hrank => simp [Phase.expected, takes, hrank]
    split at h
    · next hparen => simp [Phase.expected, takes, hparen]
    · cases h

/-- A token that is read is one that may come next. -/
theorem takes_of_step (h : phase.step t = some (after, ended)) :
    takes phase.expected t.kind = true := by
  cases Phase.stepped_of_step h with
  | passes hseparator => simp [Phase.expected, takes, hseparator]
  | prints hprint => simp [Phase.expected, takes, hprint]
  | opens hr =>
    have hoperand : takes .operand t.kind = true := @takes_of_reading_step _ false _ _ hr
    unfold takes at hoperand
    simp only [Phase.expected, takes, hoperand, Bool.true_or]
  | @ends printing r e hseparator he =>
    cases r with
    | wanting => cases he
    | holding => simp [Phase.expected, takes, hseparator]
  | reads hr => exact takes_of_reading_step hr

/-- An operator must follow a text. -/
theorem expected_of_step_string (hstring : t.kind = .string)
    (h : phase.step t = some (after, ended)) : after.expected = .operator := by
  have hread : ∀ {r r' : Reading} {printing : Bool}, r.step t = some r' →
      (Phase.within printing r').expected = .operator := by
    intro r r' printing hr
    cases r with
    | wanting outer inner =>
      simp only [Reading.step, hstring] at hr
      cases hr
      rfl
    | holding outer waiting operand =>
      simp only [Reading.step, hstring] at hr
      cases hr
  cases Phase.stepped_of_step h with
  | passes hseparator | ends hseparator =>
    rw [hstring] at hseparator
    cases hseparator
  | prints hprint => cases hstring.symm.trans hprint
  | opens hr => exact hread hr
  | reads hr => exact hread hr

/-! ## A run -/

/-- A reading without a mistake from a place on the given line, with its tokens and statements. -/
inductive Run : Phase → Int → List Char → List Token → List Node → Prop
  | done {phase : Phase} {line : Int} {statements : List Node}
      (ends : phase.finish? = some statements) : Run phase line [] [] statements
  | skip {phase : Phase} {line : Int} {c : Char} {rest : List Char} {n : Nat} {tokens : List Token}
      {statements : List Node} (skips : skipped? c rest = some n)
      (run : Run phase line (rest.drop n) tokens statements) :
      Run phase line (c :: rest) tokens statements
  | token {phase after : Phase} {line : Int} {c : Char} {rest : List Char} {k : Kind} {n : Nat}
      {tokens : List Token} {ended statements : List Node}
      (finds : find phase.expected c rest = .token k n)
      (steps : phase.step ⟨k, String.ofList (c :: rest.take n), line⟩ = some (after, ended))
      (run : Run after (line + Scan.lineBreaks (c :: rest.take n)) (rest.drop n) tokens
        statements) :
      Run phase line (c :: rest) (⟨k, String.ofList (c :: rest.take n), line⟩ :: tokens)
        (ended ++ statements)

theorem run_of_read {phase : Phase} {line last : Int} {cs : List Char} {tokens : List Token}
    {statements : List Node} (h : read phase line last cs = .ok (tokens, statements)) :
    Run phase line cs tokens statements := by
  fun_induction read phase line last cs generalizing tokens statements
  case case1 hends =>
    cases h
    exact .done hends
  case case3 hfind ih => exact .skip (find_eq_skipped_iff.1 hfind) (ih h)
  case case5 hfind _ _ _ _ hstep _ _ hread ih =>
    cases h
    exact .token hfind hstep (ih hread)
  all_goals cases h

theorem read_of_run {phase : Phase} {line : Int} {cs : List Char} {tokens : List Token}
    {statements : List Node} (h : Run phase line cs tokens statements) (last : Int) :
    read phase line last cs = .ok (tokens, statements) := by
  induction h generalizing last with
  | done hends => rw [read, hends]
  | skip hskips _ ih =>
    rw [read, find_eq_skipped_iff.2 hskips]
    exact ih last
  | token hfinds hsteps _ ih =>
    rw [read, hfinds]
    simp only [hsteps, ih]

/-- A program is taken exactly if it has a successful reading without kept words. -/
theorem ofSource_eq_iff {source : String} {statements : List Node} :
    ofSource source = ⟨statements, []⟩ ↔
      ∃ tokens, Run .between 1 source.toList tokens statements ∧
        ∀ t ∈ tokens, isKeptWord t = false := by
  unfold ofSource
  constructor
  · intro h
    split at h
    · cases h
    next tokens ended hread =>
    split at h
    · cases h
    next hkept =>
    cases h
    refine ⟨tokens, run_of_read hread, fun t ht => ?_⟩
    simpa using List.find?_eq_none.1 hkept t ht
  · rintro ⟨tokens, hrun, hkept⟩
    have hnone : tokens.find? isKeptWord = none :=
      List.find?_eq_none.2 fun t ht => by simp [hkept t ht]
    simp only [read_of_run hrun, hnone]

/-- Where an operator must come next, a text has not given its last quote back. -/
theorem head?_ne_of_run {phase : Phase} {line : Int} {cs : List Char} {tokens : List Token}
    {statements : List Node} (h : Run phase line cs tokens statements)
    (hexpected : phase.expected = .operator) : cs.head? ≠ some '"' := by
  intro hquote
  cases h with
  | done => cases hquote
  | skip hskips =>
    obtain rfl := Option.some.inj hquote
    cases hskips
  | token hfinds =>
    obtain rfl := Option.some.inj hquote
    rw [hexpected] at hfinds
    cases (find_eq_token_iff.1 hfinds).2

/-! ## The grammar -/

/-- The tokens of the statement being read. -/
def Phase.Reads : Phase → List Token → Prop
  | between, tokens => tokens = []
  | within printing r, tokens => ReadsStatement printing r tokens

/-- The statements that tokens make, read one after another up to the end; none if some token cannot
stand where it stands, or the source cannot end after the last. -/
def Phase.readTokens? : Phase → List Token → Option (List Node)
  | phase, [] => phase.finish?
  | phase, t :: ts =>
      (phase.step t).bind fun (after, ended) => (after.readTokens? ts).map (ended ++ ·)

theorem readTokens?_cons_eq_some_iff {ts : List Token} {statements : List Node} :
    phase.readTokens? (t :: ts) = some statements ↔
      ∃ after ended more, phase.step t = some (after, ended) ∧ after.readTokens? ts = some more ∧
        ended ++ more = statements := by
  constructor
  · intro h
    obtain ⟨⟨after, ended⟩, hstep, hrest⟩ := Option.bind_eq_some_iff.1 h
    obtain ⟨more, hmore, heq⟩ := Option.map_eq_some_iff.1 hrest
    exact ⟨after, ended, more, hstep, hmore, heq⟩
  · rintro ⟨after, ended, more, hstep, hmore, rfl⟩
    simp only [Phase.readTokens?, hstep, Option.bind_some, hmore, Option.map_some]

theorem readTokens?_of_run {line : Int} {cs : List Char} {tokens : List Token}
    {statements : List Node} (h : Run phase line cs tokens statements) :
    phase.readTokens? tokens = some statements := by
  induction h with
  | done ends => exact ends
  | skip _ _ ih => exact ih
  | token _ steps _ ih => exact readTokens?_cons_eq_some_iff.2 ⟨_, _, _, steps, ih, rfl⟩

/-! ### Soundness -/

theorem writes_of_readTokens? {tokens : List Token} {statements : List Node}
    (h : phase.readTokens? tokens = some statements) :
    ∀ {current : List Token}, phase.Reads current →
      Writes statements (current ++ tokens) ∧ ∀ s ∈ statements, s.Canonical := by
  -- The tokens read so far are those of the statement being read; whole statements lie behind.
  induction tokens generalizing phase statements with
  | nil =>
    intro current hreads
    cases phase with
    | between =>
      cases h
      cases hreads
      exact ⟨.nil, by simp⟩
    | within printing r =>
      obtain ⟨e, he, rfl⟩ := Option.map_eq_some_iff.1 h
      obtain ⟨hcanonical, hspells⟩ := ReadsStatement.finished hreads he
      rw [List.append_nil]
      exact ⟨.last hspells, by simpa using hcanonical⟩
  | cons t tokens ih =>
    intro current hreads
    obtain ⟨after, ended, more, hstep, hmore, rfl⟩ := readTokens?_cons_eq_some_iff.1 h
    cases Phase.stepped_of_step hstep with
    | passes hseparator =>
      cases hreads
      obtain ⟨hwrites, hcanonical⟩ := ih hmore rfl
      exact ⟨.separator (Kind.isSeparator_iff.1 hseparator) hwrites, hcanonical⟩
    | prints hprint =>
      cases hreads
      exact ih hmore ⟨_, [], rfl, hprint, .start⟩
    | opens hr =>
      cases hreads
      exact ih hmore (Reading.Reads.start.step hr)
    | ends hseparator he =>
      obtain ⟨hcanonical, hspells⟩ := ReadsStatement.finished hreads he
      obtain ⟨hwrites, hothers⟩ := ih hmore rfl
      refine ⟨.cons hspells (Kind.isSeparator_iff.1 hseparator) hwrites, fun s hs => ?_⟩
      rcases List.mem_cons.1 hs with rfl | hs
      · exact hcanonical
      · exact hothers s hs
    | reads hr =>
      have hnext := ih hmore (ReadsStatement.step hreads hr)
      rwa [List.append_assoc, List.singleton_append] at hnext

/-! ### Completeness -/

theorem readTokens?_of_leads {limit : Nat} {r r' : Reading} {ts : List Token}
    (h : Reading.Leads limit r ts r') (printing : Bool) (rest : List Token) :
    (Phase.within printing r).readTokens? (ts ++ rest) =
      (Phase.within printing r').readTokens? rest := by
  induction h with
  | refl r => rfl
  | step inside taken _ _ ih =>
    simp only [List.cons_append, Phase.readTokens?, Phase.step, inside, taken, Bool.false_eq_true,
      if_false, Option.map_some, Option.bind_some, List.nil_append, Option.map_id', ih]

/-- A statement that is no `print` starts with its expression. -/
theorem readTokens?_between_of_leads {limit : Nat} {r : Reading} {ts : List Token}
    (h : Reading.Leads limit .start ts r) (hts : ts ≠ []) (rest : List Token) :
    Phase.between.readTokens? (ts ++ rest) =
      (Phase.within false .start).readTokens? (ts ++ rest) := by
  cases h with
  | refl => exact absurd rfl hts
  | @step _ r' _ t ts inside taken _ _ =>
    have hprint : t.kind ≠ .printWord := by
      intro hk
      simp [Reading.start, Reading.step, hk, Kind.isLiteral, Kind.isSign] at taken
    simp only [List.cons_append, Phase.readTokens?, Phase.step, inside, hprint, Bool.false_eq_true,
      if_false]

/-- The tokens that spell a statement lead to where it may end. -/
theorem readTokens?_of_spells {s : Node} {ts : List Token} (hc : s.Canonical) (hs : s.Spells ts)
    (rest : List Token) :
    ∃ (printing : Bool) (waiting : List Waiting) (operand : Node),
      Node.ofExpression printing (Waiting.settleAll waiting operand) = s ∧
      Phase.between.readTokens? (ts ++ rest) =
        (Phase.within printing (.holding [] waiting operand)).readTokens? rest := by
  have hleads : ∀ {e : Node} {us : List Token}, e.OfLevel .assignment → e.Spells us →
      ∃ (waiting : List Waiting) (operand : Node), Waiting.settleAll waiting operand = e ∧
        Reading.Leads e.nesting .start us (.holding [] waiting operand) := by
    intro e us he hus
    rcases Reading.leads_of_spells e.nesting he hus with ⟨-, hrun⟩ | ⟨hover, -⟩
    · exact hrun
    · exact absurd hover (Nat.lt_irrefl _)
  cases hc with
  | expression he =>
    cases hs with
    | expression hus =>
    obtain ⟨waiting, x, hsettle, hrun⟩ := hleads he hus
    refine ⟨false, waiting, x, by rw [hsettle]; rfl, ?_⟩
    rw [readTokens?_between_of_leads hrun _ rest, readTokens?_of_leads hrun]
    rintro rfl
    cases hrun
  | print he =>
    cases hs with
    | @print _ word us isPrint hus =>
    obtain ⟨waiting, x, hsettle, hrun⟩ := hleads he hus
    refine ⟨true, waiting, x, by rw [hsettle]; rfl, ?_⟩
    have hword : Phase.between.step word = some (.within true .start, []) := by
      simp [Phase.step, isPrint, Kind.isSeparator]
    simp only [List.cons_append, Phase.readTokens?, hword, Option.bind_some, List.nil_append,
      Option.map_id', readTokens?_of_leads hrun]

theorem readTokens?_of_writes {statements : List Node} {ts : List Token} (h : Writes statements ts)
    (hc : ∀ s ∈ statements, s.Canonical) : Phase.between.readTokens? ts = some statements := by
  induction h with
  | nil => rfl
  | separator kind _ ih =>
    refine readTokens?_cons_eq_some_iff.2 ⟨.between, [], _, ?_, ih hc, rfl⟩
    exact if_pos (Kind.isSeparator_iff.2 kind)
  | @last s ts spells =>
    obtain ⟨printing, waiting, x, hnode, hread⟩ :=
      readTokens?_of_spells (hc s List.mem_cons_self) spells []
    rw [List.append_nil] at hread
    rw [hread, ← hnode]
    rfl
  | @cons s ts t statements more spells kind _ ih =>
    obtain ⟨printing, waiting, x, hnode, hread⟩ :=
      readTokens?_of_spells (hc s List.mem_cons_self) spells (t :: more)
    rw [hread]
    refine readTokens?_cons_eq_some_iff.2 ⟨.between, [s], statements, ?_, ih ?_, rfl⟩
    · rw [← hnode]
      exact if_pos (Kind.isSeparator_iff.2 kind)
    · exact fun s' hs' => hc s' (List.mem_cons_of_mem _ hs')

/-- **The tokens that are read are those of the grammar**: they make statements exactly if they
spell them and the grammar derives them. -/
theorem readTokens?_eq_some_iff {ts : List Token} {statements : List Node} :
    Phase.between.readTokens? ts = some statements ↔
      Writes statements ts ∧ ∀ s ∈ statements, s.Canonical :=
  ⟨fun h => @writes_of_readTokens? .between ts statements h [] rfl,
    fun h => readTokens?_of_writes h.1 h.2⟩

/-- What is read successfully is of the grammar, spelled by the tokens read. -/
theorem writes_of_run {line : Int} {cs : List Char} {tokens : List Token} {statements : List Node}
    (h : Run .between line cs tokens statements) :
    Writes statements tokens ∧ ∀ s ∈ statements, s.Canonical :=
  readTokens?_eq_some_iff.1 (readTokens?_of_run h)

end Scriptlet.FrontEnd.Strict
