import Mathlib.Order.Bounds.Basic
import Scriptlet.Proofs.FrontEnd.Composition
import Scriptlet.Proofs.Syntax.Progress

/-!
# Where reading goes on after a mistake

A mistake costs tokens up to a place where a statement may start again (`Resumes`): the end, a word
that starts statements, or the place after a separator. From there on everything is read as if the
program began there (`Anew`). The first such place is looked for after the reported token, which is
skipped whatever it is.

Where the reported token is the first of its statement this must be so, or reading would not go
forward. Further on in a statement it need not, and it matters in one case: a word that starts
statements and is reported, because an operand, a closing parenthesis or a separator was wanted in
its place or because the statement is nested too deeply, does not start one (`exists_resumption`).
So the `print` of `1 + print 2` is lost, and its statement with it (`attempts_of_print_reported`).
-/

namespace Scriptlet.FrontEnd.Recovering

/-! ## Where statements are begun -/

/-- A token begins a statement: between statements any token does that is no separator, after a
mistake only a word that starts statements does. -/
def begins : Phase → Token → Bool
  | .between, t => !t.kind.isSeparator
  | .within _ _, _ => false
  | .beyond _, _ => false
  | .skipping, t => t.kind.startsStatement

/-- The indices of the tokens that begin statements, up to the first end-of-file token; the first
token has the given index. -/
def attemptsFrom (phase : Phase) (index : Nat) : List Token → List Nat
  | [] => []
  | t :: rest =>
      if t.kind = .endOfFile then []
      else
        (if begins phase t then [index] else []) ++ attemptsFrom (step phase t).1 (index + 1) rest

/-- The indices of the tokens of a list that begin statements. -/
def attempts (tokens : List Token) : List Nat := attemptsFrom .between 0 tokens

/-- The index of the first token that is no separator, unless it is the end. -/
def nextStart? (index : Nat) : List Token → Option Nat
  | [] => none
  | t :: rest =>
      if t.kind.isSeparator then nextStart? (index + 1) rest
      else if t.kind = .endOfFile then none
      else some index

/-- A statement has been begun that has neither ended nor been given up. -/
def Phase.Inside : Phase → Prop
  | between => False
  | within _ _ => True
  | beyond _ => True
  | skipping => False

theorem begins_of_inside {phase : Phase} (h : phase.Inside) (t : Token) :
    begins phase t = false := by
  cases phase with
  | between | skipping => exact h.elim
  | within | beyond => rfl

theorem startsStatement_of_isSeparator {k : Kind} (h : k.isSeparator = true) :
    k.startsStatement = false := by
  rcases Kind.isSeparator_iff.1 h with rfl | rfl <;> rfl

theorem step_of_begins {phase : Phase} {t : Token} (h : begins phase t = true) :
    step phase t = begin t := by
  cases phase with
  | between => rfl
  | within | beyond => cases h
  | skipping => exact if_pos h

/-- Tokens that start no statement are skipped, up to a separator. -/
theorem skipping_step {t : Token} (h : t.kind.startsStatement = false) :
    step .skipping t = (if t.kind.isSeparator then .between else .skipping, []) := by
  rw [step, h, if_neg Bool.false_ne_true]
  split <;> rfl

/-- Where a program starts, the first statement is begun after the separators. -/
theorem head?_attemptsFrom_between (index : Nat) (tokens : List Token) :
    (attemptsFrom .between index tokens).head? = nextStart? index tokens := by
  induction tokens generalizing index with
  | nil => rfl
  | cons t rest ih =>
    rw [attemptsFrom, nextStart?]
    by_cases hend : t.kind = .endOfFile
    · rw [if_pos hend, if_neg (by rw [hend]; decide), if_pos hend]
      rfl
    by_cases hsep : t.kind.isSeparator = true
    · have hstep : step .between t = (.between, []) := if_pos hsep
      rw [if_neg hend, if_pos hsep, hstep, ← ih]
      simp [begins, hsep]
    · rw [if_neg hend, if_neg hsep, if_neg hend]
      simp [begins, hsep]

/-! ## One step -/

theorem within_eq_complain {printing : Bool} {r : Reading} {t u : Token} {c : Complaint}
    (h : .complaint u c ∈ (within printing r t).2) :
    ∃ cs, within printing r t = complain t cs := by
  unfold within at h ⊢
  split
  · next hsep =>
    rw [if_pos hsep] at h
    split
    · next e hfin =>
      rw [hfin] at h
      cases List.mem_singleton.1 h
    · exact ⟨_, rfl⟩
  · next hsep =>
    rw [if_neg hsep] at h
    split
    · next r' hstep =>
      rw [hstep] at h
      simp only at h
      split at h
      · cases h
      · cases h
    · exact ⟨_, rfl⟩

theorem begin_eq_complain {t u : Token} {c : Complaint} (h : .complaint u c ∈ (begin t).2) :
    ∃ cs, begin t = complain t cs := by
  unfold begin at h ⊢
  split
  · next hsep =>
    rw [if_pos hsep] at h
    cases h
  split
  · next hsep hprint =>
    rw [if_neg hsep, if_pos hprint] at h
    cases h
  · next hsep hprint =>
    rw [if_neg hsep, if_neg hprint] at h
    exact within_eq_complain h

theorem overrun_eq_complain {byOne : Bool} {t u : Token} {c : Complaint}
    (h : .complaint u c ∈ (overrun byOne t).2) : ∃ cs, overrun byOne t = complain t cs := by
  unfold overrun at h ⊢
  split
  · next hsign =>
    rw [if_pos hsign] at h
    cases h
  · exact ⟨_, rfl⟩

/-- A complaint is about a token that begins a statement or stands in one, and leads to skipping
unless the token is a separator. -/
theorem step_of_complaint {phase : Phase} {t u : Token} {c : Complaint}
    (h : .complaint u c ∈ (step phase t).2) :
    (step phase t).1 = (if t.kind.isSeparator then .between else .skipping) ∧
      (begins phase t = true ∨ phase.Inside) := by
  cases phase with
  | between =>
    obtain ⟨cs, hcs⟩ := begin_eq_complain h
    refine ⟨congrArg Prod.fst hcs, .inl ?_⟩
    cases hsep : t.kind.isSeparator with
    | true => simp [step, begin, hsep] at h
    | false => simp [begins, hsep]
  | within printing r =>
    obtain ⟨cs, hcs⟩ := within_eq_complain h
    exact ⟨congrArg Prod.fst hcs, .inr trivial⟩
  | beyond byOne =>
    obtain ⟨cs, hcs⟩ := overrun_eq_complain h
    exact ⟨congrArg Prod.fst hcs, .inr trivial⟩
  | skipping =>
    by_cases hstarts : t.kind.startsStatement = true
    · have hstep : step .skipping t = begin t := step_of_begins hstarts
      rw [hstep] at h ⊢
      obtain ⟨cs, hcs⟩ := begin_eq_complain h
      exact ⟨congrArg Prod.fst hcs, .inl hstarts⟩
    · rw [skipping_step (Bool.eq_false_iff.2 hstarts)] at h
      cases h

theorem begins_of_complaint {phase : Phase} {t u : Token} {c : Complaint}
    (h : .complaint u c ∈ eventsAt phase t) :
    begins phase t = true ∧ t.kind ≠ .endOfFile ∨ phase.Inside := by
  by_cases hend : t.kind = .endOfFile
  · rw [eventsAt, if_pos hend] at h
    cases phase with
    | within | beyond => exact .inr trivial
    | between | skipping => cases h
  · rw [eventsAt_of_ne hend] at h
    exact (step_of_complaint h).2.imp_left fun hbegins => ⟨hbegins, hend⟩

/-- A statement is being read only after a token that began one or in one that was being read. -/
theorem begins_of_step_inside {phase : Phase} {t : Token} (h : (step phase t).1.Inside) :
    begins phase t = true ∨ phase.Inside := by
  cases phase with
  | between =>
    cases hsep : t.kind.isSeparator with
    | true => simp [step, begin, hsep, Phase.Inside] at h
    | false => exact .inl (by simp [begins, hsep])
  | within | beyond => exact .inr trivial
  | skipping =>
    by_cases hstarts : t.kind.startsStatement = true
    · exact .inl hstarts
    · rw [skipping_step (Bool.eq_false_iff.2 hstarts)] at h
      simp only at h
      split at h <;> exact h.elim

/-! ## The tokens before an index -/

variable {phase : Phase} {index : Nat} {before rest : List Token}

theorem trace_append (hbefore : ∀ t ∈ before, t.kind ≠ .endOfFile) :
    trace phase index (before ++ rest) =
      trace phase index before ++ trace (phaseAfter phase before) (index + before.length) rest := by
  induction before generalizing phase index with
  | nil => rfl
  | cons t before ih =>
    obtain ⟨ht, hbefore⟩ := List.forall_mem_cons.1 hbefore
    rw [List.cons_append, trace_cons_of_ne _ _ ht, trace_cons_of_ne _ _ ht, ih hbefore,
      List.append_assoc, List.length_cons, Nat.add_assoc, Nat.add_comm 1]
    rfl

theorem attemptsFrom_append (hbefore : ∀ t ∈ before, t.kind ≠ .endOfFile) :
    attemptsFrom phase index (before ++ rest) =
      attemptsFrom phase index before ++
        attemptsFrom (phaseAfter phase before) (index + before.length) rest := by
  induction before generalizing phase index with
  | nil => rfl
  | cons t before ih =>
    obtain ⟨ht, hbefore⟩ := List.forall_mem_cons.1 hbefore
    rw [List.cons_append, attemptsFrom, attemptsFrom, if_neg ht, if_neg ht, ih hbefore,
      List.append_assoc, List.length_cons, Nat.add_assoc, Nat.add_comm 1]
    rfl

theorem lt_of_mem_trace {tokens : List Token} {e : Nat × Event} (h : e ∈ trace phase index tokens) :
    e.1 < index + tokens.length := by
  induction tokens generalizing phase index with
  | nil => cases h
  | cons t rest ih =>
    rw [List.length_cons]
    rcases mem_trace_cons h with ⟨hindex, -⟩ | ⟨-, hlater⟩
    · omega
    · have := ih hlater
      omega

theorem bounds_of_mem_attemptsFrom {tokens : List Token} {i : Nat}
    (h : i ∈ attemptsFrom phase index tokens) : index ≤ i ∧ i < index + tokens.length := by
  induction tokens generalizing phase index with
  | nil => cases h
  | cons t rest ih =>
    rw [List.length_cons]
    rw [attemptsFrom] at h
    split at h
    · cases h
    rcases List.mem_append.1 h with h | h
    · have hi : i = index := by
        split at h
        · exact List.mem_singleton.1 h
        · cases h
      omega
    · have hbounds := ih h
      omega

/-- A complaint in a trace comes up at its token, in the phase that the tokens before lead to. -/
theorem exists_append_of_mem_trace {tokens : List Token} {i : Nat} {t : Token} {c : Complaint}
    (h : (i, .complaint t c) ∈ trace phase index tokens) :
    ∃ before rest, tokens = before ++ t :: rest ∧ index + before.length = i ∧
      (∀ u ∈ before, u.kind ≠ .endOfFile) ∧
      .complaint t c ∈ eventsAt (phaseAfter phase before) t := by
  induction tokens generalizing phase index with
  | nil => cases h
  | cons u rest ih =>
    rcases mem_trace_cons h with ⟨hindex, hevent⟩ | ⟨hend, hlater⟩
    · obtain rfl := eq_of_complaint_mem_eventsAt hevent
      exact ⟨[], rest, rfl, hindex.symm, by simp, hevent⟩
    · obtain ⟨before, rest', rfl, hindex, hbefore, hevent⟩ := ih hlater
      refine ⟨u :: before, rest', rfl, ?_, List.forall_mem_cons.2 ⟨hend, hbefore⟩, hevent⟩
      rw [List.length_cons]
      omega

theorem exists_append_of_mem_reports {tokens : List Token} {r : Report} (h : r ∈ reports tokens) :
    ∃ before rest, tokens = before ++ r.token :: rest ∧ before.length = r.index ∧
      (∀ t ∈ before, t.kind ≠ .endOfFile) ∧
      .complaint r.token r.complaint ∈ eventsAt (phaseAfter .between before) r.token := by
  obtain ⟨⟨i, event⟩, he, hr⟩ := List.mem_filterMap.1 h
  obtain ⟨rfl, rfl⟩ := ofEvent?_eq_some hr
  obtain ⟨before, rest, htokens, hlength, hbefore, hcomplaint⟩ := exists_append_of_mem_trace he
  exact ⟨before, rest, htokens, by omega, hbefore, hcomplaint⟩

/-! ## The statement being read -/

theorem attemptsFrom_ne_nil (hbefore : ∀ t ∈ before, t.kind ≠ .endOfFile)
    (hphase : ¬phase.Inside) (h : (phaseAfter phase before).Inside) :
    attemptsFrom phase index before ≠ [] := by
  induction before generalizing phase index with
  | nil => exact absurd h hphase
  | cons t before ih =>
    obtain ⟨ht, hbefore⟩ := List.forall_mem_cons.1 hbefore
    rw [attemptsFrom, if_neg ht]
    by_cases hbegins : begins phase t = true
    · simp [hbegins]
    · rw [if_neg hbegins, List.nil_append]
      refine ih hbefore (fun hstep => ?_) h
      rcases begins_of_step_inside hstep with hbegins' | hinside
      · exact hbegins hbegins'
      · exact hphase hinside

/-! ## Places to start again -/

/-- A statement may start again at an index: at the end, at a word that starts statements, or after
a separator. -/
def Resumes (tokens : List Token) (i : Nat) : Prop :=
  (∃ t, tokens[i]? = some t ∧ (t.kind = .endOfFile ∨ t.kind.startsStatement = true)) ∨
    ∃ j t, i = j + 1 ∧ tokens[j]? = some t ∧ t.kind.isSeparator = true

/-- The first index from `first` on at which a statement may start again. -/
def FirstResumption (tokens : List Token) (first q : Nat) : Prop :=
  IsLeast {i | first ≤ i ∧ Resumes tokens i} q

/-- No separator stands right before an index. -/
def Unseparated (tokens : List Token) (i : Nat) : Prop :=
  ∀ j t, i = j + 1 → tokens[j]? = some t → t.kind.isSeparator = false

theorem unseparated_succ {tokens : List Token} {i : Nat} {t : Token} (ht : tokens[i]? = some t)
    (hsep : ¬t.kind.isSeparator = true) : Unseparated tokens (i + 1) := by
  intro j u hj hu
  obtain rfl : i = j := by omega
  obtain rfl := Option.some.inj (ht.symm.trans hu)
  exact Bool.eq_false_iff.2 hsep

/-- No separator stands right before a token of a statement being read. -/
theorem unseparated_of_inside (h : (phaseAfter phase before).Inside) :
    Unseparated (before ++ rest) before.length := by
  intro j t hj ht
  obtain rfl | ⟨front, last, hconcat⟩ := List.eq_nil_or_concat before
  · cases hj
  rw [List.concat_eq_append] at hconcat
  subst hconcat
  obtain rfl : front.length = j := by simpa using hj
  obtain rfl : last = t := by simpa using ht
  refine Bool.eq_false_iff.2 fun hsep => ?_
  have hstep := (step_separator (phaseAfter phase front) hsep last).1
  rw [phaseAfter, List.foldl_append] at h
  exact (hstep ▸ h : Phase.between.Inside)

theorem not_resumes {tokens : List Token} {i : Nat} {t : Token} (ht : tokens[i]? = some t)
    (hend : t.kind ≠ .endOfFile) (hstarts : t.kind.startsStatement = false)
    (hlast : Unseparated tokens i) : ¬Resumes tokens i := by
  rintro (⟨u, hu, hkind⟩ | ⟨j, u, hj, hu, hsep⟩)
  · obtain rfl := Option.some.inj (ht.symm.trans hu)
    rcases hkind with hkind | hkind
    · exact hend hkind
    · exact Bool.false_ne_true (hstarts.symm.trans hkind)
  · exact Bool.false_ne_true ((hlast j u hj hu).symm.trans hsep)

theorem FirstResumption.of_succ {tokens : List Token} {first q : Nat}
    (h : FirstResumption tokens (first + 1) q) (hnot : ¬Resumes tokens first) :
    FirstResumption tokens first q := by
  obtain ⟨⟨hle, hresumes⟩, hleast⟩ := h
  refine ⟨⟨by omega, hresumes⟩, ?_⟩
  rintro i ⟨hi, hi'⟩
  rcases Nat.eq_or_lt_of_le hi with rfl | hlt
  · exact absurd hi' hnot
  · exact hleast ⟨hlt, hi'⟩

theorem FirstResumption.of_resumes {tokens : List Token} {first : Nat}
    (h : Resumes tokens first) : FirstResumption tokens first first :=
  ⟨⟨Nat.le_refl _, h⟩, fun _ hi => hi.1⟩

/-! ## Reading anew -/

/-- Reading on from an index is reading a program that begins at `q`. -/
structure Anew (phase : Phase) (tokens : List Token) (index q : Nat) : Prop where
  events : trace phase index (tokens.drop index) = trace .between q (tokens.drop q)
  starts : attemptsFrom phase index (tokens.drop index) = attemptsFrom .between q (tokens.drop q)

theorem Anew.refl (tokens : List Token) (q : Nat) : Anew .between tokens q q := ⟨rfl, rfl⟩

theorem getElem?_of_drop {tokens : List Token} {t : Token} (h : tokens.drop index = t :: rest) :
    tokens[index]? = some t := by
  rw [← List.head?_drop, h]
  rfl

theorem drop_succ_of_drop {tokens : List Token} {t : Token} (h : tokens.drop index = t :: rest) :
    tokens.drop (index + 1) = rest := by
  rw [← List.tail_drop, h]
  rfl

section Skipping

variable {tokens : List Token} {t : Token} {q : Nat} (hdrop : tokens.drop index = t :: rest)

include hdrop

theorem Anew.of_end (hend : t.kind = .endOfFile) : Anew .skipping tokens index index := by
  constructor
  · rw [hdrop, trace_cons_of_eq _ _ hend, trace_cons_of_eq _ _ hend, eventsAt, eventsAt,
      if_pos hend, if_pos hend]
    rfl
  · rw [hdrop, attemptsFrom, attemptsFrom, if_pos hend, if_pos hend]

/-- A word that starts statements is read as where a program starts. -/
theorem Anew.of_starts (hend : t.kind ≠ .endOfFile) (hstarts : t.kind.startsStatement = true) :
    Anew .skipping tokens index index := by
  have hsep : t.kind.isSeparator = false := by
    refine Bool.eq_false_iff.2 fun hsep => ?_
    rw [startsStatement_of_isSeparator hsep] at hstarts
    cases hstarts
  have hstep : step .skipping t = step .between t := step_of_begins hstarts
  have hbetween : begins .between t = true := by rw [begins, hsep]; rfl
  have hskipping : begins .skipping t = true := hstarts
  constructor
  · rw [hdrop, trace_cons_of_ne _ _ hend, trace_cons_of_ne _ _ hend, eventsAt_of_ne hend,
      eventsAt_of_ne hend, hstep]
  · rw [hdrop, attemptsFrom, attemptsFrom, if_neg hend, if_neg hend, hstep, if_pos hskipping,
      if_pos hbetween]

theorem Anew.of_skipped (hend : t.kind ≠ .endOfFile) (hstarts : t.kind.startsStatement = false)
    (h : Anew (step .skipping t).1 tokens (index + 1) q) : Anew .skipping tokens index q := by
  have hrest := drop_succ_of_drop hdrop
  constructor
  · rw [hdrop, trace_cons_of_ne _ _ hend, eventsAt_of_ne hend, ← h.events, hrest,
      skipping_step hstarts]
    rfl
  · rw [hdrop, attemptsFrom, if_neg hend, ← h.starts, hrest, begins, hstarts]
    rfl

end Skipping

/-- Skipping goes on to the first place where a statement may start again. -/
theorem exists_anew_of_skipping {tokens : List Token} (hend : ∃ t ∈ rest, t.kind = .endOfFile)
    (hdrop : tokens.drop index = rest) (hlast : Unseparated tokens index) :
    ∃ q, FirstResumption tokens index q ∧ Anew .skipping tokens index q := by
  induction rest generalizing index with
  | nil =>
    obtain ⟨t, ht, -⟩ := hend
    cases ht
  | cons t rest ih =>
    have ht := getElem?_of_drop hdrop
    by_cases hfinal : t.kind = .endOfFile
    · exact ⟨index, .of_resumes (.inl ⟨t, ht, .inl hfinal⟩), .of_end hdrop hfinal⟩
    by_cases hstarts : t.kind.startsStatement = true
    · exact ⟨index, .of_resumes (.inl ⟨t, ht, .inr hstarts⟩), .of_starts hdrop hfinal hstarts⟩
    rw [Bool.not_eq_true] at hstarts
    have hnot : ¬Resumes tokens index := not_resumes ht hfinal hstarts hlast
    by_cases hsep : t.kind.isSeparator = true
    · have hfirst : FirstResumption tokens (index + 1) (index + 1) :=
        .of_resumes (.inr ⟨index, t, rfl, ht, hsep⟩)
      refine ⟨index + 1, hfirst.of_succ hnot, .of_skipped hdrop hfinal hstarts ?_⟩
      rw [skipping_step hstarts, if_pos hsep]
      exact .refl tokens _
    · have hrest : ∃ u ∈ rest, u.kind = .endOfFile := by
        obtain ⟨u, hu, hkind⟩ := hend
        rcases List.mem_cons.1 hu with rfl | hu
        · exact absurd hkind hfinal
        · exact ⟨u, hu, hkind⟩
      obtain ⟨q, hq, hanew⟩ := ih hrest (drop_succ_of_drop hdrop) (unseparated_succ ht hsep)
      refine ⟨q, hq.of_succ hnot, .of_skipped hdrop hfinal hstarts ?_⟩
      rwa [skipping_step hstarts, if_neg hsep]

/-! ## After a report -/

/-- The index after the reported token; the end is not passed. -/
def Report.next (r : Report) : Nat :=
  if r.token.kind = .endOfFile then r.index else r.index + 1

theorem filter_trace {t : Token} (hbefore : ∀ t ∈ before, t.kind ≠ .endOfFile) :
    (trace .between 0 (before ++ t :: rest)).filter (before.length < ·.1) =
      if t.kind = .endOfFile then []
      else trace (step (phaseAfter .between before) t).1 (before.length + 1) rest := by
  have hold : (trace .between 0 before).filter (before.length < ·.1) = [] := by
    refine List.filter_eq_nil_iff.2 fun e he => ?_
    have hlt := lt_of_mem_trace he
    simp only [decide_eq_true_eq]
    omega
  have hown : ((eventsAt (phaseAfter .between before) t).map (before.length, ·)).filter
      (before.length < ·.1) = [] := by
    refine List.filter_eq_nil_iff.2 fun e he => ?_
    obtain ⟨event, -, rfl⟩ := List.mem_map.1 he
    simp
  rw [trace_append hbefore, List.filter_append, hold, List.nil_append, Nat.zero_add]
  by_cases hend : t.kind = .endOfFile
  · rw [trace_cons_of_eq _ _ hend, hown, if_pos hend]
  · rw [trace_cons_of_ne _ _ hend, List.filter_append, hown, List.nil_append, if_neg hend]
    refine List.filter_eq_self.2 fun e he => ?_
    have hle := (bounds_of_mem_trace he).1
    simp only [decide_eq_true_eq]
    omega

theorem filter_attempts {t : Token} (hbefore : ∀ t ∈ before, t.kind ≠ .endOfFile) :
    (attempts (before ++ t :: rest)).filter (before.length < ·) =
      if t.kind = .endOfFile then []
      else attemptsFrom (step (phaseAfter .between before) t).1 (before.length + 1) rest := by
  have hold : (attemptsFrom .between 0 before).filter (before.length < ·) = [] := by
    refine List.filter_eq_nil_iff.2 fun i hi => ?_
    have hlt := (bounds_of_mem_attemptsFrom hi).2
    simp only [decide_eq_true_eq]
    omega
  rw [attempts, attemptsFrom_append hbefore, List.filter_append, hold, List.nil_append,
    Nat.zero_add, attemptsFrom]
  by_cases hend : t.kind = .endOfFile
  · rw [if_pos hend, if_pos hend]
    rfl
  · have hown : (if begins (phaseAfter .between before) t then [before.length] else []).filter
        (before.length < ·) = [] := by
      split <;> simp
    rw [if_neg hend, if_neg hend, List.filter_append, hown, List.nil_append]
    refine List.filter_eq_self.2 fun i hi => ?_
    have hle := (bounds_of_mem_attemptsFrom hi).1
    simp only [decide_eq_true_eq]
    omega

/-- After a report everything is read as from the first place after the reported token where a
statement may start again. -/
theorem exists_anew_of_report {tokens : List Token} (hend : ∃ t ∈ tokens, t.kind = .endOfFile)
    {r : Report} (hr : r ∈ reports tokens) :
    ∃ q, FirstResumption tokens r.next q ∧
      (attempts tokens).filter (r.index < ·) = attemptsFrom .between q (tokens.drop q) ∧
      (trace .between 0 tokens).filter (r.index < ·.1) = trace .between q (tokens.drop q) := by
  obtain ⟨before, rest, rfl, hindex, hbefore, hcomplaint⟩ := exists_append_of_mem_reports hr
  rw [Report.next, ← hindex, filter_trace hbefore, filter_attempts hbefore]
  have hdrop : (before ++ r.token :: rest).drop before.length = r.token :: rest := List.drop_left
  have htoken := getElem?_of_drop hdrop
  by_cases hfinal : r.token.kind = .endOfFile
  · refine ⟨before.length, ?_, ?_, ?_⟩
    · rw [if_pos hfinal]
      exact .of_resumes (.inl ⟨r.token, htoken, .inl hfinal⟩)
    · rw [if_pos hfinal, hdrop, attemptsFrom, if_pos hfinal]
    · rw [if_pos hfinal, hdrop, trace_cons_of_eq _ _ hfinal, eventsAt, if_pos hfinal]
      rfl
  · rw [if_neg hfinal, if_neg hfinal, if_neg hfinal]
    rw [eventsAt_of_ne hfinal] at hcomplaint
    have hrest := drop_succ_of_drop hdrop
    have hphase := (step_of_complaint hcomplaint).1
    obtain ⟨q, hq, hanew⟩ : ∃ q, FirstResumption (before ++ r.token :: rest) (before.length + 1) q ∧
        Anew (step (phaseAfter .between before) r.token).1 (before ++ r.token :: rest)
          (before.length + 1) q := by
      by_cases hsep : r.token.kind.isSeparator = true
      · rw [hphase, if_pos hsep]
        exact ⟨_, .of_resumes (.inr ⟨_, _, rfl, htoken, hsep⟩), .refl _ _⟩
      · rw [hphase, if_neg hsep]
        refine exists_anew_of_skipping ?_ hrest (unseparated_succ htoken hsep)
        obtain ⟨u, hu, hkind⟩ := hend
        rcases List.mem_append.1 hu with hu | hu
        · exact absurd hkind (hbefore u hu)
        rcases List.mem_cons.1 hu with rfl | hu
        · exact absurd hkind hfinal
        · exact ⟨u, hu, hkind⟩
    refine ⟨q, hq, ?_, ?_⟩
    · rw [← hanew.starts, hrest]
    · rw [← hanew.events, hrest]

/-- A report is about the first token of its statement, or about a later one that no separator
precedes. -/
theorem exists_start_of_report {tokens : List Token} {r : Report} (hr : r ∈ reports tokens) :
    ∃ s, IsGreatest {i | i ∈ attempts tokens ∧ i ≤ r.index} s ∧
      (s = r.index ∧ r.token.kind ≠ .endOfFile ∨
        s < r.index ∧ Unseparated tokens r.index) := by
  obtain ⟨before, rest, rfl, hindex, hbefore, hcomplaint⟩ := exists_append_of_mem_reports hr
  rw [← hindex]
  have hattempts : attempts (before ++ r.token :: rest) = attemptsFrom .between 0 before ++
      attemptsFrom (phaseAfter .between before) before.length (r.token :: rest) := by
    rw [attempts, attemptsFrom_append hbefore, Nat.zero_add]
  rcases begins_of_complaint hcomplaint with ⟨hbegins, hfinal⟩ | hinside
  · refine ⟨before.length, ⟨⟨?_, Nat.le_refl _⟩, fun i hi => hi.2⟩, .inl ⟨rfl, hfinal⟩⟩
    rw [hattempts, attemptsFrom, if_neg hfinal, if_pos hbegins]
    exact List.mem_append_right _ List.mem_cons_self
  · -- the statement was begun before the reported token, by the last of the attempts so far
    have hne : attemptsFrom .between 0 before ≠ [] :=
      attemptsFrom_ne_nil hbefore id hinside
    obtain ⟨s, hs⟩ : ∃ s, (attemptsFrom .between 0 before).max? = some s :=
      Option.isSome_iff_exists.1 (List.isSome_max?_of_ne_nil hne)
    obtain ⟨hmem, hmax⟩ := List.max?_eq_some_iff.1 hs
    have hlt := (bounds_of_mem_attemptsFrom hmem).2
    refine ⟨s, ⟨⟨?_, by omega⟩, ?_⟩, .inr ⟨by omega, unseparated_of_inside hinside⟩⟩
    · rw [hattempts]
      exact List.mem_append_left _ hmem
    · rintro i ⟨hi, hle⟩
      rw [hattempts, attemptsFrom, begins_of_inside hinside] at hi
      rcases List.mem_append.1 hi with hi | hi
      · exact hmax i hi
      · split at hi
        · cases hi
        · have hlow := (bounds_of_mem_attemptsFrom hi).1
          omega

/-- **After a mistake reading goes on at the first place after the reported token where a statement
may start again.** A token list with an end is read, and each report stands in the statement that
was begun last. From the end, from a word that starts statements or from after a separator,
whichever comes first after the reported token, everything is read as in a program that begins
there: the next statement is begun at the first token that is no separator. This is also the first
such place from the reported token on, or from after the first token of the statement, exactly if
the report is about that first token or the reported token starts no statement. -/
theorem exists_resumption (tokens : List Token) (hend : ∃ t ∈ tokens, t.kind = .endOfFile)
    (r : Report) (hr : r ∈ reports tokens) :
    parse? tokens = some (ofEvents ((trace .between 0 tokens).map Prod.snd)) ∧
      ∃ s q, IsGreatest {i | i ∈ attempts tokens ∧ i ≤ r.index} s ∧
        FirstResumption tokens r.next q ∧
        ((attempts tokens).filter (r.index < ·)).head? = nextStart? q (tokens.drop q) ∧
        (attempts tokens).filter (r.index < ·) = attemptsFrom .between q (tokens.drop q) ∧
        (trace .between 0 tokens).filter (r.index < ·.1) = trace .between q (tokens.drop q) ∧
        (FirstResumption tokens (max r.index (s + 1)) q ↔
          r.index = s ∨ r.token.kind.startsStatement = false) := by
  obtain ⟨s, hs, hplace⟩ := exists_start_of_report hr
  obtain ⟨q, hq, hattempts, htrace⟩ := exists_anew_of_report hend hr
  have htoken := (bounds_of_mem_reports hr).2
  refine ⟨parse?_eq_some_ofEvents_trace hend, s, q, hs, hq, ?_, hattempts, htrace, ?_⟩
  · rw [hattempts, head?_attemptsFrom_between]
  rcases hplace with ⟨rfl, hfinal⟩ | ⟨hlt, hlast⟩
  · rw [Nat.max_eq_right (Nat.le_succ _)]
    rw [Report.next, if_neg hfinal] at hq
    exact ⟨fun _ => .inl rfl, fun _ => hq⟩
  rw [Nat.max_eq_left hlt]
  constructor
  · intro hfirst
    refine .inr (Bool.eq_false_iff.2 fun hstarts => ?_)
    -- it would be the reported token itself, which is passed
    have hfinal : r.token.kind ≠ .endOfFile := by
      intro hk
      rw [hk] at hstarts
      cases hstarts
    have hle : q ≤ r.index := hfirst.2 ⟨Nat.le_refl _, .inl ⟨r.token, htoken, .inr hstarts⟩⟩
    have hnext : r.next ≤ q := hq.1.1
    rw [Report.next, if_neg hfinal] at hnext
    omega
  · rintro (hstart | hstarts)
    · omega
    by_cases hfinal : r.token.kind = .endOfFile
    · rwa [Report.next, if_pos hfinal] at hq
    · rw [Report.next, if_neg hfinal] at hq
      exact hq.of_succ (not_resumes htoken hfinal hstarts hlast)

/-- In `( 1 2 print 3` the mistake is at the `2`, and the next statement is begun at `print`. -/
theorem exists_resumption_open_group :
    let tokens : List Token := [⟨.leftParen, "(", 1⟩, ⟨.number, "1", 1⟩, ⟨.number, "2", 1⟩,
      ⟨.printWord, "print", 1⟩, ⟨.number, "3", 1⟩, ⟨.endOfFile, "", 1⟩]
    (reports tokens).map Report.index = [2] ∧
      ((attempts tokens).filter (2 < ·)).head? = some 3 ∧
      FirstResumption tokens (max 2 (0 + 1)) 3 := by
  intro tokens
  obtain ⟨-, s, q, hs, hq, hnext, -, -, hspecified⟩ := exists_resumption tokens
    ⟨⟨.endOfFile, "", 1⟩, by decide, rfl⟩ ⟨2, ⟨.number, "2", 1⟩, .expectClosing⟩ List.mem_cons_self
  have hthree : FirstResumption tokens 3 3 := .of_resumes (.inl ⟨_, rfl, .inr rfl⟩)
  obtain rfl : q = 3 := hq.unique hthree
  have hfirst : ∀ i ∈ attempts tokens, i ≤ 2 → i ≤ 0 := by decide
  obtain rfl : s = 0 := Nat.le_zero.1 (hfirst s hs.1.1 hs.1.2)
  exact ⟨rfl, hnext, hspecified.2 (.inr rfl)⟩

/-- In `1 + print 2` the first place from the reported word on is that word itself, but no statement
is begun there: the only one that is begun is the broken one. -/
theorem attempts_of_print_reported :
    let tokens : List Token := [⟨.number, "1", 1⟩, ⟨.plus, "+", 1⟩, ⟨.printWord, "print", 1⟩,
      ⟨.number, "2", 1⟩, ⟨.endOfFile, "", 1⟩]
    (reports tokens).map Report.index = [2] ∧ attempts tokens = [0] ∧
      FirstResumption tokens (max 2 (0 + 1)) 2 ∧ nextStart? 2 (tokens.drop 2) = some 2 ∧
      (parse? tokens).map Parsed.statements = some [] :=
  ⟨rfl, rfl, .of_resumes (.inl ⟨_, rfl, .inr rfl⟩), rfl, rfl⟩

end Scriptlet.FrontEnd.Recovering
