import Scriptlet.Proofs.Syntax.Completeness

/-!
# Where mistakes are reported

A diagnostic of the recovering front end names a line and a lexeme, not a place in the token list.
Its place is the index of the token that was being read when it came up. `Recovering.trace` keeps
this index with each event, and `Recovering.reports` are the complaints among them. The trace is
what `parse?` makes its result of (`parse?_eq_some_ofEvents_trace`), so the diagnostics of a token
list are its reports, in order (`diagnostics_eq_reports`).

Reading looks at one token at a time: a token gives a statement, or complaints about itself, or
nothing (`About`, `about_eventsAt`). There are two complaints only close to the nesting limit, where
an operand is wanted and there is room to say so but not to leave the statement (`Cramped`). All
that is said about where reports stand is derived from this and from `reportsFrom_cons`.
-/

namespace Scriptlet.FrontEnd.Recovering

/-- A complaint with the index of the token that it is about. -/
structure Report where
  index : Nat
  token : Token
  complaint : Complaint

namespace Report

/-- What is reported. -/
def diagnostic (r : Report) : Diagnostic := .atToken r.token r.complaint.message .compile

/-- The report of an event at an index. -/
def ofEvent? (index : Nat) : Event → Option Report
  | .statement _ => none
  | .complaint t c => some ⟨index, t, c⟩

theorem map_diagnostic_ofEvent? (index : Nat) (e : Event) :
    (ofEvent? index e).map diagnostic = e.diagnostic? := by
  cases e <;> rfl

end Report

/-- What a token of a list gives rise to; an end-of-file token ends the program. -/
def eventsAt (phase : Phase) (t : Token) : List Event :=
  if t.kind = .endOfFile then finish phase t else (step phase t).2

/-- The events of a token list up to its first end-of-file token, each with the index of the token
that gave rise to it; the first token has the given index. -/
def trace (phase : Phase) (index : Nat) : List Token → List (Nat × Event)
  | [] => []
  | t :: rest =>
      (eventsAt phase t).map (index, ·) ++
        if t.kind = .endOfFile then [] else trace (step phase t).1 (index + 1) rest

/-- The reports of a token list that is read from a phase on, its first token at the given index. -/
def reportsFrom (phase : Phase) (index : Nat) (tokens : List Token) : List Report :=
  (trace phase index tokens).filterMap fun e => Report.ofEvent? e.1 e.2

/-- The reports of a token list. -/
def reports (tokens : List Token) : List Report := reportsFrom .between 0 tokens

/-! ## The events of one token -/

/-- There is room for the complaint about a missing operand, but not for leaving the statement
after it. -/
def Cramped (r : Reading) : Prop :=
  nestingLimit < r.load + retreatLoad ∧ r.load + complaintLoad ≤ nestingLimit

theorem complaints_cases (r : Reading) :
    (∃ c, complaints r = [c]) ∨ complaints r = [.expectExpression, .tooDeep] ∧ Cramped r := by
  cases r with
  | wanting outer inner =>
    simp only [complaints]
    split
    · exact .inl ⟨_, rfl⟩
    next hretreat =>
    split
    · next hcomplaint => exact .inr ⟨rfl, Nat.lt_of_not_le hretreat, hcomplaint⟩
    · exact .inl ⟨_, rfl⟩
  | holding outer waiting operand => cases outer <;> exact .inl ⟨_, rfl⟩

/-- What a token can give rise to. -/
inductive About (phase : Phase) (t : Token) : List Event → Prop
  | nothing : About phase t []
  | statement (n : Node) : About phase t [.statement n]
  | complaint (c : Complaint) : About phase t [.complaint t c]
  | complaints {printing : Bool} {r : Reading} (within : phase = .within printing r)
      (cramped : Cramped r) :
      About phase t [.complaint t .expectExpression, .complaint t .tooDeep]

theorem about_complaints (printing : Bool) (r : Reading) (t : Token) :
    About (.within printing r) t ((complaints r).map (.complaint t)) := by
  rcases complaints_cases r with ⟨c, hc⟩ | ⟨hc, hcramped⟩
  · rw [hc]
    exact .complaint c
  · rw [hc]
    exact .complaints rfl hcramped

theorem about_within (printing : Bool) (r : Reading) (t : Token) :
    About (.within printing r) t (within printing r t).2 := by
  unfold within
  split
  · split
    · exact .statement _
    · exact about_complaints ..
  · split
    · split
      · exact .nothing
      · exact .nothing
    · exact about_complaints ..

/-- Where a statement starts there is room for every complaint. -/
theorem about_begin (phase : Phase) (t : Token) : About phase t (begin t).2 := by
  unfold begin
  split
  · exact .nothing
  split
  · exact .nothing
  · have habout := about_within false .start t
    generalize (within false .start t).2 = events at habout
    cases habout with
    | nothing => exact .nothing
    | statement n => exact .statement n
    | complaint c => exact .complaint c
    | complaints hwithin hcramped =>
      cases hwithin
      exact absurd hcramped.1 (by decide)

theorem about_overrun (phase : Phase) (byOne : Bool) (t : Token) :
    About phase t (overrun byOne t).2 := by
  unfold overrun
  split
  · exact .nothing
  · exact .complaint .tooDeep

theorem about_step (phase : Phase) (t : Token) : About phase t (step phase t).2 := by
  cases phase with
  | between => exact about_begin .between t
  | within printing r => exact about_within printing r t
  | beyond byOne => exact about_overrun (.beyond byOne) byOne t
  | skipping =>
    simp only [step]
    split
    · exact about_begin .skipping t
    split
    · exact .nothing
    · exact .nothing

theorem about_finish (phase : Phase) (t : Token) : About phase t (finish phase t) := by
  cases phase with
  | between | skipping => exact .nothing
  | beyond byOne => exact .complaint .tooDeep
  | within printing r =>
    simp only [finish]
    split
    · exact .statement _
    · exact about_complaints ..

/-- A token gives nothing, a statement, or complaints about itself. -/
theorem about_eventsAt (phase : Phase) (t : Token) : About phase t (eventsAt phase t) := by
  unfold eventsAt
  split
  · exact about_finish phase t
  · exact about_step phase t

/-! ## The events of a token list -/

theorem reportsFrom_cons (phase : Phase) (index : Nat) (t : Token) (rest : List Token) :
    reportsFrom phase index (t :: rest) =
      (eventsAt phase t).filterMap (Report.ofEvent? index) ++
        if t.kind = .endOfFile then [] else reportsFrom (step phase t).1 (index + 1) rest := by
  simp only [reportsFrom, trace, List.filterMap_append, List.filterMap_map, Function.comp_def]
  split <;> rfl

/-- The trace of a token list is what is read from it. -/
theorem map_snd_trace (phase : Phase) (index : Nat) {body : List Token} {final : Token}
    (hbody : ∀ t ∈ body, t.kind ≠ .endOfFile) (hfinal : final.kind = .endOfFile)
    (rest : List Token) :
    (trace phase index (body ++ final :: rest)).map Prod.snd = read phase body final := by
  induction body generalizing phase index with
  | nil => simp [trace, eventsAt, hfinal, read, Function.comp_def]
  | cons t body ih =>
    have ht : t.kind ≠ .endOfFile := hbody t List.mem_cons_self
    have hrest := ih (step phase t).1 (index + 1) fun u hu => hbody u (List.mem_cons_of_mem _ hu)
    simp only [List.cons_append, trace, eventsAt, ht, if_false, List.map_append, List.map_map,
      Function.comp_def, List.map_id', hrest, read]

theorem parse?_eq_none_of_forall {tokens : List Token} (h : ∀ t ∈ tokens, t.kind ≠ .endOfFile) :
    parse? tokens = none := by
  have hbody : ∀ t ∈ tokens, (t.kind != .endOfFile) = true := by simpa using h
  have hnil : tokens.dropWhile (·.kind != .endOfFile) = [] := by
    rw [← List.append_nil tokens, List.dropWhile_append_of_pos hbody]
    rfl
  simp only [parse?, hnil]

theorem exists_endOfFile_of_parse? {tokens : List Token} {parsed : Parsed}
    (h : parse? tokens = some parsed) : ∃ t ∈ tokens, t.kind = .endOfFile := by
  refine Classical.byContradiction fun hnone => ?_
  rw [parse?_eq_none_of_forall fun t ht hk => hnone ⟨t, ht, hk⟩] at h
  cases h

/-- A token list that has an end goes up to its first end-of-file token and on from there. -/
theorem exists_append_of_endOfFile {tokens : List Token}
    (h : ∃ t ∈ tokens, t.kind = .endOfFile) :
    ∃ body final rest, tokens = body ++ final :: rest ∧ (∀ t ∈ body, t.kind ≠ .endOfFile) ∧
      final.kind = .endOfFile := by
  obtain ⟨final, hfind⟩ : ∃ final, tokens.find? (·.kind == .endOfFile) = some final := by
    simpa [Option.isSome_iff_exists] using List.find?_isSome.2 (by simpa using h)
  obtain ⟨hfinal, body, rest, rfl, hbody⟩ := List.find?_eq_some_iff_append.1 hfind
  exact ⟨body, final, rest, rfl, by simpa using hbody, by simpa using hfinal⟩

/-- A token list that has an end is made of its trace. -/
theorem parse?_eq_some_ofEvents_trace {tokens : List Token}
    (h : ∃ t ∈ tokens, t.kind = .endOfFile) :
    parse? tokens = some (ofEvents ((trace .between 0 tokens).map Prod.snd)) := by
  obtain ⟨body, final, rest, rfl, hbody, hfinal⟩ := exists_append_of_endOfFile h
  rw [parse?_append_cons hbody hfinal, map_snd_trace .between 0 hbody hfinal]

/-- The diagnostics of a token list are its reports. -/
theorem diagnostics_eq_reports {tokens : List Token} {parsed : Parsed}
    (h : parse? tokens = some parsed) :
    parsed.diagnostics = (reports tokens).map Report.diagnostic := by
  rw [parse?_eq_some_ofEvents_trace (exists_endOfFile_of_parse? h)] at h
  obtain rfl := Option.some.inj h
  simp only [ofEvents, reports, reportsFrom, List.filterMap_map, List.map_filterMap,
    Report.map_diagnostic_ofEvent?, Function.comp_def]

end Scriptlet.FrontEnd.Recovering
