import Scriptlet.Proofs.Syntax.Earliest

/-!
# Reading goes forward and stays within the token list

Every token is read once, whether it ends a statement, is reported, is skipped after a mistake or is
one that skipping stops at. So the indices in a trace do not decrease (`pairwise_trace`), and they
do not go beyond the first end-of-file token (`bounds_of_mem_trace`). A token has one event at most,
with one exception: where an operand is wanted so close to the nesting limit that the statement
cannot be left after the complaint, the same token is reported once more (`Report.Follows`). That
happens (`not_increasing_close_to_limit`). Since there are tokens before it without an event, there
are still no more statements and diagnostics than tokens (`length_trace_le`, `length_ofEvents`).

Reading fails only by running out of tokens (`parse?_eq_none_iff`). What stands after the first
end-of-file token is not looked at (`parse?_eq_of_agree`).
-/

namespace Scriptlet.FrontEnd.Recovering

/-- The index of the first end-of-file token, or the length if there is none. -/
def endIndex (tokens : List Token) : Nat := tokens.findIdx (·.kind == .endOfFile)

theorem endIndex_cons_of_eq {t : Token} (h : t.kind = .endOfFile) (rest : List Token) :
    endIndex (t :: rest) = 0 := by
  simp [endIndex, List.findIdx_cons, h]

theorem endIndex_cons_of_ne {t : Token} (h : t.kind ≠ .endOfFile) (rest : List Token) :
    endIndex (t :: rest) = endIndex rest + 1 := by
  have hkind : (t.kind == .endOfFile) = false := beq_eq_false_iff_ne.2 h
  simp [endIndex, List.findIdx_cons, hkind]

theorem endIndex_append_cons {body : List Token} {final : Token}
    (hbody : ∀ t ∈ body, t.kind ≠ .endOfFile) (hfinal : final.kind = .endOfFile)
    (rest : List Token) : endIndex (body ++ final :: rest) = body.length := by
  induction body with
  | nil => exact endIndex_cons_of_eq hfinal rest
  | cons t body ih =>
    have ht : t.kind ≠ .endOfFile := hbody t List.mem_cons_self
    rw [List.cons_append, endIndex_cons_of_ne ht, List.length_cons,
      ih fun u hu => hbody u (List.mem_cons_of_mem _ hu)]

/-! ## The indices in a trace -/

theorem trace_cons_of_eq (phase : Phase) (index : Nat) {t : Token} (h : t.kind = .endOfFile)
    (rest : List Token) :
    trace phase index (t :: rest) = (eventsAt phase t).map (index, ·) := by
  rw [trace, if_pos h, List.append_nil]

theorem trace_cons_of_ne (phase : Phase) (index : Nat) {t : Token} (h : t.kind ≠ .endOfFile)
    (rest : List Token) :
    trace phase index (t :: rest) =
      (eventsAt phase t).map (index, ·) ++ trace (step phase t).1 (index + 1) rest := by
  rw [trace, if_neg h]

theorem eq_of_complaint_mem_eventsAt {phase : Phase} {t u : Token} {c : Complaint}
    (h : .complaint u c ∈ eventsAt phase t) : u = t := by
  have habout := about_eventsAt phase t
  generalize eventsAt phase t = events at habout h
  cases habout with
  | nothing => cases h
  | statement => cases List.mem_singleton.1 h
  | complaint =>
    cases List.mem_singleton.1 h
    rfl
  | complaints =>
    rcases List.mem_cons.1 h with heq | h
    · exact (Event.complaint.inj heq).1
    · exact (Event.complaint.inj (List.mem_singleton.1 h)).1

/-- The event of a token bears the index of the token. -/
theorem mem_trace_cons {phase : Phase} {index : Nat} {t : Token} {rest : List Token}
    {e : Nat × Event} (h : e ∈ trace phase index (t :: rest)) :
    (e.1 = index ∧ e.2 ∈ eventsAt phase t) ∨
      (t.kind ≠ .endOfFile ∧ e ∈ trace (step phase t).1 (index + 1) rest) := by
  have hfirst : e ∈ (eventsAt phase t).map (index, ·) → e.1 = index ∧ e.2 ∈ eventsAt phase t := by
    intro hmem
    obtain ⟨event, hevent, rfl⟩ := List.mem_map.1 hmem
    exact ⟨rfl, hevent⟩
  by_cases hend : t.kind = .endOfFile
  · rw [trace_cons_of_eq phase index hend] at h
    exact .inl (hfirst h)
  · rw [trace_cons_of_ne phase index hend] at h
    rcases List.mem_append.1 h with h | h
    · exact .inl (hfirst h)
    · exact .inr ⟨hend, h⟩

/-- Events come from tokens up to the first end-of-file token, and a complaint is about the token
that it comes from. -/
theorem bounds_of_mem_trace {phase : Phase} {index : Nat} {tokens : List Token} {e : Nat × Event}
    (h : e ∈ trace phase index tokens) :
    index ≤ e.1 ∧ e.1 ≤ index + endIndex tokens ∧
      ∀ t c, e.2 = .complaint t c → tokens[e.1 - index]? = some t := by
  induction tokens generalizing phase index with
  | nil => cases h
  | cons u rest ih =>
    rcases mem_trace_cons h with ⟨hindex, hevent⟩ | ⟨hend, hlater⟩
    · refine ⟨by omega, by omega, ?_⟩
      intro t c hcomplaint
      rw [hcomplaint] at hevent
      rw [hindex, Nat.sub_self, eq_of_complaint_mem_eventsAt hevent]
      rfl
    · obtain ⟨hlow, hhigh, hcomplaint⟩ := ih hlater
      rw [endIndex_cons_of_ne hend]
      refine ⟨by omega, by omega, ?_⟩
      intro t c hevent
      have hindex : e.1 - index = e.1 - (index + 1) + 1 := by omega
      rw [hindex, List.getElem?_cons_succ]
      exact hcomplaint t c hevent

/-- The phase after some tokens. -/
def phaseAfter (phase : Phase) (tokens : List Token) : Phase :=
  tokens.foldl (fun p t => (step p t).1) phase

/-- Two events of one token: the complaint that an operand is missing, and the one that the
statement is nested too deeply to be left. -/
inductive Doubled : Phase → Event → Event → Prop
  | mk {printing : Bool} {r : Reading} (t : Token) (cramped : Cramped r) :
      Doubled (.within printing r) (.complaint t .expectExpression) (.complaint t .tooDeep)

theorem pairwise_eventsAt (phase : Phase) (t : Token) :
    (eventsAt phase t).Pairwise (Doubled phase) := by
  have habout := about_eventsAt phase t
  generalize eventsAt phase t = events at habout
  cases habout with
  | nothing => exact .nil
  | statement | complaint => exact List.pairwise_singleton _ _
  | complaints hwithin hcramped =>
    subst hwithin
    exact List.pairwise_pair.2 (.mk t hcramped)

/-- Every event comes from a later token than the one before, or is the second one of a token. -/
theorem pairwise_trace (phase : Phase) (index : Nat) (tokens : List Token) :
    (trace phase index tokens).Pairwise fun a b => a.1 < b.1 ∨
      a.1 = b.1 ∧ Doubled (phaseAfter phase (tokens.take (a.1 - index))) a.2 b.2 := by
  induction tokens generalizing phase index with
  | nil => exact .nil
  | cons t rest ih =>
    have hfirst : ((eventsAt phase t).map (index, ·)).Pairwise fun a b => a.1 < b.1 ∨
        a.1 = b.1 ∧ Doubled (phaseAfter phase ((t :: rest).take (a.1 - index))) a.2 b.2 := by
      refine List.pairwise_map.2 ((pairwise_eventsAt phase t).imp fun hdoubled => .inr ⟨rfl, ?_⟩)
      rwa [Nat.sub_self]
    by_cases hend : t.kind = .endOfFile
    · rw [trace_cons_of_eq phase index hend]
      exact hfirst
    · rw [trace_cons_of_ne phase index hend]
      refine List.pairwise_append.2 ⟨hfirst, ?_, ?_⟩
      · refine (ih (step phase t).1 (index + 1)).imp_of_mem fun {a b} ha _ hab => ?_
        -- the phase at a later index is reached through the first token
        have hlow := (bounds_of_mem_trace ha).1
        have hindex : a.1 - index = a.1 - (index + 1) + 1 := by omega
        rwa [hindex]
      · intro a ha b hb
        obtain ⟨event, -, rfl⟩ := List.mem_map.1 ha
        have hlater : index + 1 ≤ b.1 := (bounds_of_mem_trace hb).1
        exact .inl hlater

/-! ## The number of events -/

/-- How many events the tokens of the statement being read, which had none, leave room for. -/
def Phase.spare : Phase → Nat
  | between => 0
  | within _ r => min r.load 1
  | beyond _ => 0
  | skipping => 0

theorem length_eventsAt_le (phase : Phase) (t : Token) :
    (eventsAt phase t).length ≤ phase.spare + 1 := by
  have habout := about_eventsAt phase t
  generalize eventsAt phase t = events at habout
  cases habout with
  | nothing => exact Nat.zero_le _
  | statement | complaint => exact Nat.le_add_left 1 _
  | @complaints printing r hwithin hcramped =>
    subst hwithin
    have hload : 1 ≤ r.load := by
      have hlow := hcramped.1
      simp only [nestingLimit, retreatLoad] at hlow
      omega
    simp only [Phase.spare, Nat.min_eq_right hload]
    exact Nat.le_refl 2

theorem spare_le_one (phase : Phase) : phase.spare ≤ 1 := by
  cases phase with
  | between | beyond | skipping => exact Nat.zero_le 1
  | within printing r => exact Nat.min_le_right _ _

theorem spare_complain (t : Token) (cs : List Complaint) : (complain t cs).1.spare = 0 := by
  unfold complain
  split <;> rfl

/-- After an event nothing is being read. -/
theorem nil_or_spare_within (printing : Bool) (r : Reading) (t : Token) :
    (within printing r t).2 = [] ∨ (within printing r t).1.spare = 0 := by
  unfold within
  split
  · split
    · exact .inr rfl
    · exact .inr (spare_complain t _)
  · split
    · split
      · exact .inl rfl
      · exact .inl rfl
    · exact .inr (spare_complain t _)

theorem nil_or_spare_begin (t : Token) : (begin t).2 = [] ∨ (begin t).1.spare = 0 := by
  unfold begin
  split
  · exact .inl rfl
  split
  · exact .inl rfl
  · exact nil_or_spare_within false .start t

theorem nil_or_spare_step (phase : Phase) (t : Token) :
    (step phase t).2 = [] ∨ (step phase t).1.spare = 0 := by
  cases phase with
  | between => exact nil_or_spare_begin t
  | within printing r => exact nil_or_spare_within printing r t
  | beyond byOne =>
    simp only [step, overrun]
    split
    · exact .inl rfl
    · exact .inr (spare_complain t _)
  | skipping =>
    simp only [step]
    split
    · exact nil_or_spare_begin t
    split
    · exact .inl rfl
    · exact .inl rfl

/-- There are at most as many events as there are tokens up to the end. -/
theorem length_trace_le (phase : Phase) (index : Nat) (tokens : List Token) :
    (trace phase index tokens).length ≤ phase.spare + (endIndex tokens + 1) := by
  induction tokens generalizing phase index with
  | nil => exact Nat.zero_le _
  | cons t rest ih =>
    have hfirst := length_eventsAt_le phase t
    by_cases hend : t.kind = .endOfFile
    · rw [trace_cons_of_eq phase index hend, List.length_map]
      omega
    · have hrest := ih (step phase t).1 (index + 1)
      rw [trace_cons_of_ne phase index hend, List.length_append, List.length_map,
        endIndex_cons_of_ne hend]
      rw [eventsAt_of_ne hend] at hfirst ⊢
      rcases nil_or_spare_step phase t with hnil | hspare
      · have hone := spare_le_one (step phase t).1
        rw [hnil, List.length_nil]
        omega
      · omega

theorem length_ofEvents (events : List Event) :
    (ofEvents events).statements.length + (ofEvents events).diagnostics.length =
      events.length := by
  induction events with
  | nil => rfl
  | cons e rest ih =>
    simp only [ofEvents] at ih
    cases e with
    | statement n =>
      simp only [ofEvents, List.filterMap_cons, Event.statement?, Event.diagnostic?,
        List.length_cons]
      omega
    | complaint t c =>
      simp only [ofEvents, List.filterMap_cons, Event.statement?, Event.diagnostic?,
        List.length_cons]
      omega

/-! ## The indices of reports -/

theorem ofEvent?_eq_some {index : Nat} {e : Event} {r : Report}
    (h : Report.ofEvent? index e = some r) :
    r.index = index ∧ e = .complaint r.token r.complaint := by
  cases e with
  | statement n => cases h
  | complaint t c =>
    obtain rfl := Option.some.inj h
    exact ⟨rfl, rfl⟩

/-- A report comes after another: it is about a later token, or it says of the same token, which
stands where an operand is wanted close to the nesting limit, that the statement is nested too
deeply. -/
def Report.Follows (tokens : List Token) (a b : Report) : Prop :=
  a.index < b.index ∨ a.index = b.index ∧ a.complaint = .expectExpression ∧
    b.complaint = .tooDeep ∧
    ∃ printing r, phaseAfter .between (tokens.take a.index) = .within printing r ∧ Cramped r

theorem pairwise_reports (tokens : List Token) :
    (reports tokens).Pairwise (Report.Follows tokens) := by
  refine (pairwise_trace .between 0 tokens).filterMap _ ?_
  intro a b hab r hr r' hr'
  obtain ⟨hindex, hevent⟩ := ofEvent?_eq_some hr
  obtain ⟨hindex', hevent'⟩ := ofEvent?_eq_some hr'
  rw [hevent, hevent', ← hindex, ← hindex', Nat.sub_zero] at hab
  rcases hab with hlt | ⟨heq, hdoubled⟩
  · exact .inl hlt
  · generalize hphase : phaseAfter .between (tokens.take r.index) = phase at hdoubled
    generalize hfirst : Event.complaint r.token r.complaint = first at hdoubled
    generalize hsecond : Event.complaint r'.token r'.complaint = second at hdoubled
    cases hdoubled with
    | mk t hcramped =>
      exact .inr ⟨heq, (Event.complaint.inj hfirst).2, (Event.complaint.inj hsecond).2, _, _,
        hphase, hcramped⟩

theorem bounds_of_mem_reports {tokens : List Token} {r : Report} (h : r ∈ reports tokens) :
    r.index ≤ endIndex tokens ∧ tokens[r.index]? = some r.token := by
  obtain ⟨e, he, hr⟩ := List.mem_filterMap.1 h
  obtain ⟨hindex, hevent⟩ := ofEvent?_eq_some hr
  obtain ⟨-, hhigh, hcomplaint⟩ := bounds_of_mem_trace he
  have htoken := hcomplaint _ _ hevent
  rw [Nat.zero_add, ← hindex] at hhigh
  rw [Nat.sub_zero, ← hindex] at htoken
  exact ⟨hhigh, htoken⟩

/-! ## Running out of tokens -/

theorem parse?_eq_none_iff (tokens : List Token) :
    parse? tokens = none ↔ ∀ t ∈ tokens, t.kind ≠ .endOfFile := by
  refine ⟨?_, parse?_eq_none_of_forall⟩
  intro hnone t ht hend
  rw [parse?_eq_some_ofEvents_trace ⟨t, ht, hend⟩] at hnone
  cases hnone

/-- Token lists that agree up to the first end-of-file token are read alike. -/
theorem parse?_eq_of_agree {tokens others : List Token} (hend : ∃ t ∈ tokens, t.kind = .endOfFile)
    (hagree : ∀ i ≤ endIndex tokens, others[i]? = tokens[i]?) : parse? others = parse? tokens := by
  obtain ⟨body, final, rest, rfl, hbody, hfinal⟩ := exists_append_of_endOfFile hend
  rw [endIndex_append_cons hbody hfinal] at hagree
  obtain ⟨rest', rfl⟩ := exists_append_of_getElem?_eq hagree
  rw [parse?_append_cons hbody hfinal, parse?_append_cons hbody hfinal]

/-- **Reading goes forward and ends at the first end-of-file token.** It fails exactly if there is
no such token. Otherwise the result depends on the tokens up to that one only. Its diagnostics are
about tokens of the list, none beyond that one, and each is about a later token than the one before;
except that a token where an operand is missing close to the nesting limit is also reported as
nested too deeply. There are no more statements and diagnostics than tokens up to the end. -/
theorem parse?_progresses (tokens : List Token) :
    (parse? tokens = none ↔ ∀ t ∈ tokens, t.kind ≠ .endOfFile) ∧
      ((∃ t ∈ tokens, t.kind = .endOfFile) → ∃ parsed, parse? tokens = some parsed ∧
        (∀ others : List Token, (∀ i ≤ endIndex tokens, others[i]? = tokens[i]?) →
          parse? others = some parsed) ∧
        parsed.diagnostics = (reports tokens).map Report.diagnostic ∧
        (reports tokens).Pairwise (Report.Follows tokens) ∧
        (∀ r ∈ reports tokens, r.index ≤ endIndex tokens ∧ tokens[r.index]? = some r.token) ∧
        parsed.statements.length + parsed.diagnostics.length ≤ endIndex tokens + 1) := by
  refine ⟨parse?_eq_none_iff tokens, ?_⟩
  intro hend
  have hparse := parse?_eq_some_ofEvents_trace hend
  refine ⟨_, hparse, ?_, diagnostics_eq_reports hparse, pairwise_reports tokens, ?_, ?_⟩
  · intro others hagree
    rw [parse?_eq_of_agree hend hagree, hparse]
  · intro r hr
    exact bounds_of_mem_reports hr
  · rw [length_ofEvents, List.length_map, ← Nat.zero_add (endIndex tokens + 1)]
    exact length_trace_le .between 0 tokens

/-- In `class class print (1 +` skipping stops at a word that is itself reported, and the last
report is about the end; the parenthesis after the end is not read. -/
theorem parse?_progresses_reserved_words :
    let tokens : List Token := [⟨.classWord, "class", 1⟩, ⟨.classWord, "class", 1⟩,
      ⟨.printWord, "print", 1⟩, ⟨.leftParen, "(", 1⟩, ⟨.number, "1", 1⟩, ⟨.plus, "+", 1⟩,
      ⟨.endOfFile, "", 1⟩, ⟨.rightParen, ")", 1⟩]
    (reports tokens).map Report.index = [0, 1, 6] ∧
      ∃ parsed, parse? tokens = some parsed ∧ parse? (tokens.take 7) = some parsed ∧
        parsed.diagnostics = (reports tokens).map Report.diagnostic ∧
        (reports tokens).Pairwise (Report.Follows tokens) ∧
        parsed.statements.length + parsed.diagnostics.length ≤ 7 := by
  intro tokens
  obtain ⟨parsed, hparse, hothers, hdiagnostics, hpairwise, -, hlength⟩ :=
    (parse?_progresses tokens).2 ⟨⟨.endOfFile, "", 1⟩, by simp [tokens], rfl⟩
  refine ⟨rfl, parsed, hparse, hothers (tokens.take 7) ?_, hdiagnostics, hpairwise, hlength⟩
  intro i hi
  exact List.getElem?_take_of_lt (Nat.lt_succ_of_le hi)

/-- After 69 open parentheses and four prefix operators, a closing parenthesis is reported twice. -/
theorem not_increasing_close_to_limit :
    let tokens : List Token := List.replicate 69 ⟨.leftParen, "(", 1⟩ ++
      List.replicate 4 ⟨.minus, "-", 1⟩ ++ [⟨.rightParen, ")", 1⟩, ⟨.endOfFile, "", 1⟩]
    (reports tokens).map (fun r => (r.index, r.complaint)) =
        [(73, .expectExpression), (73, .tooDeep)] ∧
      ¬(reports tokens).Pairwise fun a b => a.index < b.index := by
  intro tokens
  have hreports : (reports tokens).map (fun r => (r.index, r.complaint)) =
      [(73, .expectExpression), (73, .tooDeep)] := by decide +kernel
  refine ⟨hreports, fun hpairwise => ?_⟩
  have hindices : ((reports tokens).map fun r => (r.index, r.complaint)).Pairwise
      fun a b => a.1 < b.1 := List.pairwise_map.2 hpairwise
  rw [hreports] at hindices
  exact absurd (List.pairwise_pair.1 hindices) (by decide)

end Scriptlet.FrontEnd.Recovering
