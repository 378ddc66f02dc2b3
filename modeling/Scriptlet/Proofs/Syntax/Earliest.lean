import Scriptlet.Proofs.Syntax.Reports
import Scriptlet.Proofs.Syntax.Soundness

/-!
# The first mistake is reported as early as can be

Up to the first report of a token list nothing is wrong yet: the tokens before it can still go on to
a program without mistakes. With the reported token they no longer can: whatever follows it, the
same report comes first (`exists_earliest_report`).

The second half holds since reading never looks ahead. The tokens before the first report pass
(`Passes`), the reported one does not, and neither depends on what follows
(`exists_passes_of_head?`, `head?_reportsFrom`).

The first half needs a completion for every place that passing tokens can lead to. They never lead
into skipping, and they keep the statement being read within the nesting limit or lead beyond it
(`Phase.Quiet`, `Passes.quiet`). Beyond it no completion is left, and the report to come is that the
statement is nested too deeply, so the first half is about the other reports. Within it, a statement
can end after a literal, if an operand is wanted, and as many closing parentheses as there are open
ones (`exists_leads_finished`). A step of this completion only takes away from the nesting, so the
limit is not met on the way.
-/

namespace Scriptlet.FrontEnd.Recovering

open Reading (Leads)

/-! ## Tokens that pass -/

/-- Tokens before the end of a program that lead from one phase to another without a complaint. -/
inductive Passes : Phase → List Token → Phase → Prop
  | refl (phase : Phase) : Passes phase [] phase
  | step {phase phase' : Phase} {t : Token} {ts : List Token} (inside : t.kind ≠ .endOfFile)
      (quiet : (step phase t).2.filterMap Event.diagnostic? = [])
      (rest : Passes (step phase t).1 ts phase') : Passes phase (t :: ts) phase'

theorem eventsAt_of_ne {phase : Phase} {t : Token} (h : t.kind ≠ .endOfFile) :
    eventsAt phase t = (step phase t).2 := by
  simp only [eventsAt, h, if_false]

theorem filterMap_ofEvent?_of_quiet {events : List Event} (index : Nat)
    (h : events.filterMap Event.diagnostic? = []) :
    events.filterMap (Report.ofEvent? index) = [] := by
  simpa only [List.filterMap_eq_nil_iff, ← Report.map_diagnostic_ofEvent? index,
    Option.map_eq_none_iff] using h

theorem quiet_or_complains (phase : Phase) (t : Token) :
    (eventsAt phase t).filterMap Event.diagnostic? = [] ∨
      ∃ c events, eventsAt phase t = .complaint t c :: events := by
  have habout := about_eventsAt phase t
  generalize eventsAt phase t = events at habout
  cases habout with
  | nothing | statement => exact .inl rfl
  | complaint c => exact .inr ⟨c, [], rfl⟩
  | complaints => exact .inr ⟨_, _, rfl⟩

theorem reportsFrom_append {phase phase' : Phase} {ts : List Token} (h : Passes phase ts phase')
    (index : Nat) (rest : List Token) :
    reportsFrom phase index (ts ++ rest) = reportsFrom phase' (index + ts.length) rest := by
  induction h generalizing index with
  | refl phase => rfl
  | @step phase phase' t ts inside quiet _ ih =>
    rw [List.cons_append, reportsFrom_cons, eventsAt_of_ne inside,
      filterMap_ofEvent?_of_quiet index quiet, if_neg inside, List.nil_append, ih,
      List.length_cons, Nat.add_assoc, Nat.add_comm 1]

/-- The first report is about the first token that does not pass. -/
theorem exists_passes_of_head? {phase : Phase} {index : Nat} {tokens : List Token} {r : Report}
    (h : (reportsFrom phase index tokens).head? = some r) :
    ∃ before phase' rest, tokens = before ++ r.token :: rest ∧ r.index = index + before.length ∧
      Passes phase before phase' ∧
      ∃ events, eventsAt phase' r.token = .complaint r.token r.complaint :: events := by
  induction tokens generalizing phase index with
  | nil => cases h
  | cons t rest ih =>
    rw [reportsFrom_cons] at h
    rcases quiet_or_complains phase t with hquiet | ⟨c, events, hcomplains⟩
    · rw [filterMap_ofEvent?_of_quiet index hquiet, List.nil_append] at h
      by_cases hend : t.kind = .endOfFile
      · rw [if_pos hend] at h
        cases h
      · rw [if_neg hend] at h
        obtain ⟨before, phase', rest', rfl, hindex, hpasses, hcomplains⟩ := ih h
        rw [eventsAt_of_ne hend] at hquiet
        refine ⟨t :: before, phase', rest', rfl, ?_, .step hend hquiet hpasses, hcomplains⟩
        rw [hindex, List.length_cons]
        omega
    · rw [hcomplains] at h
      obtain rfl := Option.some.inj h
      exact ⟨[], phase, rest, rfl, rfl, .refl phase, events, hcomplains⟩

/-- What follows the first token that does not pass makes no difference to the first report. -/
theorem head?_reportsFrom {phase phase' : Phase} {before : List Token} {t : Token} {c : Complaint}
    {events : List Event} (hpasses : Passes phase before phase')
    (hcomplains : eventsAt phase' t = .complaint t c :: events) (index : Nat) (rest : List Token) :
    (reportsFrom phase index (before ++ t :: rest)).head? =
      some ⟨index + before.length, t, c⟩ := by
  rw [reportsFrom_append hpasses, reportsFrom_cons, hcomplains]
  rfl

/-- Tokens that pass add no diagnostics to those of what follows. -/
theorem Passes.diagnostics_read {phase phase' : Phase} {ts : List Token}
    (h : Passes phase ts phase') (rest : List Token) (final : Token) :
    (read phase (ts ++ rest) final).filterMap Event.diagnostic? =
      (read phase' rest final).filterMap Event.diagnostic? := by
  induction h with
  | refl phase => rfl
  | step _ quiet _ ih =>
    simp only [List.cons_append, read, List.filterMap_append, quiet, List.nil_append, ih]

theorem Passes.ne_endOfFile {phase phase' : Phase} {ts : List Token} (h : Passes phase ts phase') :
    ∀ t ∈ ts, t.kind ≠ .endOfFile := by
  induction h with
  | refl phase => simp
  | step inside _ _ ih =>
    intro u hu
    rcases List.mem_cons.1 hu with rfl | hu
    · exact inside
    · exact ih u hu

/-! ## Where passing tokens lead -/

/-- Nothing has been reported yet, and the statement being read is within the nesting limit unless
the limit has been passed. -/
def Phase.Quiet : Phase → Prop
  | between => True
  | within _ r => r.load ≤ nestingLimit
  | beyond _ => True
  | skipping => False

theorem quiet_complain {t : Token} {cs : List Complaint} (hcs : cs ≠ [])
    (h : (complain t cs).2.filterMap Event.diagnostic? = []) : (complain t cs).1.Quiet :=
  absurd h (diagnostics_complaints_ne_nil hcs)

theorem quiet_within {printing : Bool} {r : Reading} {t : Token}
    (h : (within printing r t).2.filterMap Event.diagnostic? = []) :
    (within printing r t).1.Quiet := by
  revert h
  unfold within
  split
  · split
    · exact fun _ => trivial
    · exact quiet_complain (complaints_ne_nil r)
  · split
    · split
      · next hlight => exact fun _ => hlight
      · exact fun _ => trivial
    · exact quiet_complain (complaints_ne_nil r)

theorem quiet_step {phase : Phase} {t : Token} (hphase : phase.Quiet)
    (h : (step phase t).2.filterMap Event.diagnostic? = []) : (step phase t).1.Quiet := by
  cases phase with
  | between =>
    revert h
    simp only [step]
    unfold begin
    split
    · exact fun _ => trivial
    split
    · exact fun _ => Nat.zero_le _
    · exact quiet_within
  | within printing r => exact quiet_within h
  | beyond byOne =>
    revert h
    simp only [step]
    unfold overrun
    split
    · exact fun _ => trivial
    · exact quiet_complain (by simp)
  | skipping => exact hphase.elim

theorem Passes.quiet {phase phase' : Phase} {ts : List Token} (h : Passes phase ts phase')
    (hphase : phase.Quiet) : phase'.Quiet := by
  induction h with
  | refl phase => exact hphase
  | step _ quiet _ ih => exact ih (quiet_step hphase quiet)

/-- Beyond the nesting limit nothing else is reported. -/
theorem complaint_of_beyond {byOne : Bool} {t u : Token} {c : Complaint}
    (h : .complaint u c ∈ eventsAt (.beyond byOne) t) : c = .tooDeep := by
  unfold eventsAt at h
  split at h
  · cases List.mem_singleton.1 h
    rfl
  · simp only [step, overrun] at h
    split at h
    · cases h
    · cases List.mem_singleton.1 h
      rfl

/-! ## Completions -/

/-- An operand that is held in open parentheses is held outside of them once they are closed. -/
theorem exists_leads_closing (outer : List Pending) (waiting : List Waiting) (operand : Node)
    (hload : (Reading.holding outer waiting operand).load ≤ nestingLimit) :
    ∃ ts waiting' operand', (∀ t ∈ ts, t.kind = .rightParen) ∧
      Leads nestingLimit (.holding outer waiting operand) ts (.holding [] waiting' operand') := by
  induction outer generalizing waiting operand with
  | nil => exact ⟨[], waiting, operand, by simp, .refl _⟩
  | cons p outer ih =>
    -- closing a parenthesis drops its weight, and its prefix operators are no longer open
    have hload' : (Reading.holding outer p.waiting
        (p.applySigns (.grouping (Waiting.settleAll waiting operand)))).load ≤ nestingLimit := by
      simp only [Reading.load, Reading.load.around] at hload ⊢
      omega
    obtain ⟨ts, waiting', operand', hts, hleads⟩ := ih _ _ hload'
    refine ⟨⟨.rightParen, ")", 1⟩ :: ts, waiting', operand', ?_, .step rfl rfl hload' hleads⟩
    simpa using hts

/-- A statement that has gone well so far can be completed. -/
theorem exists_leads_finished {r : Reading} (hload : r.load ≤ nestingLimit) :
    ∃ ts waiting operand, (∀ t ∈ ts, t.kind ≠ .endOfFile) ∧
      Leads nestingLimit r ts (.holding [] waiting operand) := by
  have hclosing : ∀ t : Token, t.kind = .rightParen → t.kind ≠ .endOfFile := by
    intro t ht
    rw [ht]
    decide
  cases r with
  | holding outer waiting operand =>
    obtain ⟨ts, waiting', operand', hts, hleads⟩ :=
      exists_leads_closing outer waiting operand hload
    exact ⟨ts, waiting', operand', fun t ht => hclosing t (hts t ht), hleads⟩
  | wanting outer inner =>
    have hload' : (Reading.holding outer inner.waiting
        (inner.applySigns (.literal ⟨.nullWord, "null", 1⟩))).load ≤ nestingLimit := by
      simp only [Reading.load] at hload ⊢
      omega
    obtain ⟨ts, waiting', operand', hts, hleads⟩ := exists_leads_closing _ _ _ hload'
    refine ⟨⟨.nullWord, "null", 1⟩ :: ts, waiting', operand', ?_, .step rfl rfl hload' hleads⟩
    intro t ht
    rcases List.mem_cons.1 ht with rfl | ht
    · decide
    · exact hclosing t (hts t ht)

/-- From where nothing has gone wrong, a program can go on to its end without a mistake. -/
theorem Phase.Quiet.exists_completion {phase : Phase} (h : phase.Quiet)
    (hlimit : ∀ byOne, phase ≠ .beyond byOne) (final : Token) :
    ∃ ts, (∀ t ∈ ts, t.kind ≠ .endOfFile) ∧
      (read phase ts final).filterMap Event.diagnostic? = [] := by
  cases phase with
  | between => exact ⟨[], by simp, rfl⟩
  | within printing r =>
    obtain ⟨ts, waiting, operand, hts, hleads⟩ := exists_leads_finished h
    refine ⟨ts, hts, ?_⟩
    have hread := read_append_of_leads hleads printing [] final
    rw [List.append_nil] at hread
    rw [hread]
    rfl
  | beyond byOne => exact absurd rfl (hlimit byOne)
  | skipping => exact h.elim

/-! ## The first report -/

/-- Tokens that pass from the start, and not beyond the nesting limit, can go on to a program
without mistakes. -/
theorem Passes.exists_parse? {phase : Phase} {ts : List Token} (h : Passes .between ts phase)
    (hlimit : ∀ byOne, phase ≠ .beyond byOne) :
    ∃ more parsed, parse? (ts ++ more) = some parsed ∧ parsed.diagnostics = [] := by
  let final : Token := ⟨.endOfFile, "", 1⟩
  obtain ⟨us, hus, hquiet⟩ := (h.quiet trivial).exists_completion hlimit final
  have hbody : ∀ t ∈ ts ++ us, t.kind ≠ .endOfFile := by
    intro t ht
    rcases List.mem_append.1 ht with ht | ht
    · exact h.ne_endOfFile t ht
    · exact hus t ht
  have hparse := @parse?_append_endOfFile _ final hbody rfl
  rw [List.append_assoc] at hparse
  exact ⟨us ++ [final], _, hparse, (h.diagnostics_read us final).trans hquiet⟩

theorem head?_diagnostics {tokens : List Token} {parsed : Parsed}
    (h : parse? tokens = some parsed) :
    parsed.diagnostics.head? = (reports tokens).head?.map Report.diagnostic := by
  rw [diagnostics_eq_reports h, List.head?_map]

/-- Token lists that agree up to an index have the same token there, after the same tokens. -/
theorem exists_append_of_getElem?_eq {before rest others : List Token} {t : Token}
    (h : ∀ i ≤ before.length, others[i]? = (before ++ t :: rest)[i]?) :
    ∃ rest', others = before ++ t :: rest' := by
  have htake : others.take (before.length + 1) = before ++ [t] := by
    have htokens : (before ++ t :: rest).take (before.length + 1) = before ++ [t] := by
      simp [List.take_append, List.take_of_length_le]
    rw [← htokens]
    refine List.ext_getElem? fun i => ?_
    simp only [List.getElem?_take]
    split
    · next hi => exact h i (by omega)
    · rfl
  refine ⟨others.drop (before.length + 1), ?_⟩
  calc others = others.take (before.length + 1) ++ others.drop (before.length + 1) :=
        (List.take_append_drop _ _).symm
    _ = before ++ t :: others.drop (before.length + 1) := by rw [htake]; simp

/-- **The first mistake is reported at the earliest token that shows it.** If the reading of a token
list reports anything, its first report is at some index. Unless it is that the statement is nested
too deeply, the tokens before this index can go on to a token list that is read without a
diagnostic; and every token list that has an end and agrees with this one up to and including the
index has the very same first diagnostic. -/
theorem exists_earliest_report {tokens : List Token} {parsed : Parsed} {d : Diagnostic}
    (hparse : parse? tokens = some parsed) (hd : parsed.diagnostics.head? = some d) :
    ∃ r, (reports tokens).head? = some r ∧ r.diagnostic = d ∧ tokens[r.index]? = some r.token ∧
      (d.message ≠ "Expression nested too deeply." →
        ∃ more parsed', parse? (tokens.take r.index ++ more) = some parsed' ∧
          parsed'.diagnostics = []) ∧
      ∀ others : List Token, (∃ t ∈ others, t.kind = .endOfFile) →
        (∀ i ≤ r.index, others[i]? = tokens[i]?) →
        ∃ parsed', parse? others = some parsed' ∧ parsed'.diagnostics.head? = some d := by
  rw [head?_diagnostics hparse] at hd
  obtain ⟨r, hr, rfl⟩ := Option.map_eq_some_iff.1 hd
  obtain ⟨before, phase, rest, rfl, hindex, hpasses, events, hcomplains⟩ :=
    exists_passes_of_head? hr
  rw [Nat.zero_add] at hindex
  refine ⟨r, hr, rfl, by simp [hindex], ?_, ?_⟩
  · intro hmessage
    rw [hindex, List.take_left]
    refine hpasses.exists_parse? fun byOne hbeyond => hmessage ?_
    have hmem : .complaint r.token r.complaint ∈ eventsAt (.beyond byOne) r.token := by
      rw [← hbeyond, hcomplains]
      exact List.mem_cons_self
    rw [Report.diagnostic, complaint_of_beyond hmem]
    rfl
  · intro others hend hagree
    obtain ⟨rest', rfl⟩ := exists_append_of_getElem?_eq (hindex ▸ hagree)
    have hothers := parse?_eq_some_ofEvents_trace hend
    refine ⟨_, hothers, ?_⟩
    rw [head?_diagnostics hothers, reports, head?_reportsFrom hpasses hcomplains]
    rfl

/-- In `print -(a and * 2; )` the star is reported first, whatever stands after it. -/
theorem exists_earliest_report_open_group :
    let tokens : List Token := [⟨.printWord, "print", 1⟩, ⟨.minus, "-", 1⟩, ⟨.leftParen, "(", 1⟩,
      ⟨.identifier, "a", 1⟩, ⟨.andWord, "and", 1⟩, ⟨.star, "*", 1⟩, ⟨.number, "2", 1⟩,
      ⟨.semicolon, ";", 1⟩, ⟨.rightParen, ")", 1⟩, ⟨.endOfFile, "", 1⟩]
    (reports tokens).map Report.index = [5, 8] ∧
      (∃ more parsed, parse? (tokens.take 5 ++ more) = some parsed ∧ parsed.diagnostics = []) ∧
      ∀ others : List Token, (∃ t ∈ others, t.kind = .endOfFile) →
        (∀ i ≤ 5, others[i]? = tokens[i]?) →
        ∃ parsed, parse? others = some parsed ∧ parsed.diagnostics.head? =
          some (.atToken ⟨.star, "*", 1⟩ "Expect expression." .compile) := by
  intro tokens
  obtain ⟨r, hr, -, -, hcompletion, hothers⟩ := @exists_earliest_report tokens _ _ rfl rfl
  obtain rfl := Option.some.inj hr
  exact ⟨rfl, hcompletion (by decide), hothers⟩

end Scriptlet.FrontEnd.Recovering
