import Scriptlet.FrontEnd.Recovering
import Scriptlet.Proofs.Syntax.Spellings

/-!
# The recovering front end reads every program of the grammar

A token list that spells statements of the grammar is read back as exactly these statements, and
nothing is reported, as long as no statement is nested beyond the limit
(`parse?_eq_some_iff_of_writes`); a statement beyond the limit is always reported.

Such a statement is read as its tokens lead (`Reading.leads_of_spells`). Where they lead beyond the
limit, what comes next is reported, be it a token or the end (`complaint_mem_read_beyond`).
-/

namespace Scriptlet

namespace FrontEnd.Recovering

open Reading (Leads Overflows)

/-! ## Complaints -/

theorem complaints_ne_nil (r : Reading) : complaints r ≠ [] := by
  unfold complaints
  split
  · split
    · simp
    split <;> simp
  all_goals simp

theorem statements_complaints (t : Token) (cs : List Complaint) :
    (cs.map (.complaint t)).filterMap Event.statement? = [] := by
  simp [Event.statement?]

theorem diagnostics_complaints_ne_nil {t : Token} {cs : List Complaint} (hcs : cs ≠ []) :
    (cs.map (.complaint t)).filterMap Event.diagnostic? ≠ [] := by
  cases cs with
  | nil => exact absurd rfl hcs
  | cons c cs => simp [Event.diagnostic?]

/-! ## Runs inside a statement -/

/-- The front end follows a run within the limit and reports nothing. -/
theorem read_append_of_leads {r r' : Reading} {ts : List Token} (h : Leads nestingLimit r ts r')
    (printing : Bool) (rest : List Token) (final : Token) :
    read (.within printing r) (ts ++ rest) final = read (.within printing r') rest final := by
  induction h with
  | refl r => rfl
  | step inside taken light _ ih =>
    simp only [List.cons_append, read, step, within, inside, taken, light, if_true,
      Bool.false_eq_true, if_false, List.nil_append]
    exact ih

/-- What comes next beyond the nesting limit, the end included, is reported. -/
theorem complaint_mem_read_beyond (byOne : Bool) (ts : List Token) (final : Token) :
    ∃ t, Event.complaint t .tooDeep ∈ read (.beyond byOne) ts final := by
  induction ts generalizing byOne with
  | nil => exact ⟨final, List.mem_singleton.2 rfl⟩
  | cons t ts ih =>
    simp only [read, step, overrun]
    split
    · exact ih false
    · exact ⟨t, List.mem_cons_self⟩

/-- The front end reports a run beyond the limit. -/
theorem complaint_mem_of_overflows {r : Reading} {ts : List Token}
    (h : Overflows nestingLimit r ts) (printing : Bool) (final : Token) :
    ∃ t, Event.complaint t .tooDeep ∈ read (.within printing r) ts final := by
  induction h with
  | @here r r' t ts inside taken heavy =>
    simp only [read, step, within, inside, taken, Nat.not_le.2 heavy, if_false,
      Bool.false_eq_true, List.nil_append]
    exact complaint_mem_read_beyond _ ts final
  | later inside taken light _ ih =>
    simp only [read, step, within, inside, taken, light, if_true, Bool.false_eq_true, if_false,
      List.nil_append]
    exact ih

/-! ## Reading statements -/

/-- A statement that is no `print` starts with its expression. -/
theorem read_between_cons {t : Token} {r : Reading} (rest : List Token) (final : Token)
    (hinside : t.kind.isSeparator = false) (htaken : Reading.start.step t = some r) :
    read .between (t :: rest) final = read (.within false .start) (t :: rest) final := by
  have hprint : t.kind ≠ .printWord := by
    intro hk
    simp [Reading.start, Reading.step, hk, Kind.isLiteral, Kind.isSign] at htaken
  simp only [read, step, begin, hinside, hprint, Bool.false_eq_true, if_false]

theorem read_between_eq_of_leads {r : Reading} {ts : List Token} (rest : List Token)
    (final : Token) (h : Leads nestingLimit .start ts r) (hts : ts ≠ []) :
    read .between (ts ++ rest) final = read (.within false .start) (ts ++ rest) final := by
  cases h with
  | refl => exact absurd rfl hts
  | step inside taken _ _ => exact read_between_cons _ _ inside taken

theorem read_between_eq_of_overflows {ts : List Token} (rest : List Token)
    (final : Token) (h : Overflows nestingLimit .start ts) :
    read .between (ts ++ rest) final = read (.within false .start) (ts ++ rest) final := by
  cases h with
  | here inside taken _ => exact read_between_cons _ _ inside taken
  | later inside taken _ _ => exact read_between_cons _ _ inside taken

/-- The word `print` and the expression after it are read like the expression alone. -/
theorem read_between_print {t : Token} (rest : List Token) (final : Token)
    (h : t.kind = .printWord) :
    read .between (t :: rest) final = read (.within true .start) rest final := by
  simp [read, step, begin, h, Kind.isSeparator]

/-- Reading a spelling of a statement: within the nesting limit, it leads to where the statement may
end. -/
theorem read_statement {s : Node} {ts : List Token} (hc : s.Canonical) (hs : s.Spells ts)
    (rest : List Token) (final : Token) :
    (s.nesting ≤ nestingLimit ∧ ∃ (printing : Bool) (waiting : List Waiting) (operand : Node),
      Node.ofExpression printing (Waiting.settleAll waiting operand) = s ∧
      read .between (ts ++ rest) final =
        read (.within printing (.holding [] waiting operand)) rest final) ∨
    (nestingLimit < s.nesting ∧
      ∃ t, Event.complaint t .tooDeep ∈ read .between (ts ++ rest) final) := by
  cases hc with
  | expression he =>
    cases hs with
    | expression hus =>
    rcases Reading.leads_of_spells nestingLimit he hus with
      ⟨hfits, waiting, x, hsettle, hrun⟩ | ⟨hover, hrun⟩
    · refine .inl ⟨hfits, false, waiting, x, by rw [hsettle]; rfl, ?_⟩
      rw [read_between_eq_of_leads rest final hrun, read_append_of_leads hrun]
      rintro rfl
      cases hrun
    · refine .inr ⟨hover, ?_⟩
      rw [read_between_eq_of_overflows rest final hrun]
      exact complaint_mem_of_overflows (hrun.append rest) false final
  | print he =>
    cases hs with
    | print isPrint hus =>
    rw [List.cons_append, read_between_print _ _ isPrint]
    rcases Reading.leads_of_spells nestingLimit he hus with
      ⟨hfits, waiting, x, hsettle, hrun⟩ | ⟨hover, hrun⟩
    · exact .inl ⟨hfits, true, waiting, x, by rw [hsettle]; rfl, read_append_of_leads hrun ..⟩
    · exact .inr ⟨hover, complaint_mem_of_overflows (hrun.append rest) true final⟩

/-! ## Reading programs -/

theorem read_between_separator {t : Token} (rest : List Token) (final : Token)
    (h : t.kind.isSeparator = true) :
    read .between (t :: rest) final = read .between rest final := by
  simp only [read, step, begin, h, if_true, List.nil_append]

theorem read_holding_separator {printing : Bool} {waiting : List Waiting} {operand : Node}
    {t : Token} (rest : List Token) (final : Token) (h : t.kind.isSeparator = true) :
    read (.within printing (.holding [] waiting operand)) (t :: rest) final =
      .statement (Node.ofExpression printing (Waiting.settleAll waiting operand)) ::
        read .between rest final := by
  simp only [read, step, within, h, if_true, Reading.finished?, List.cons_append, List.nil_append]

/-- The statements that tokens spell are read back, unless one is nested too deeply. -/
theorem read_writes {statements : List Node} {ts : List Token} (h : Writes statements ts)
    (hc : ∀ s ∈ statements, s.Canonical) (final : Token) :
    ((∀ s ∈ statements, s.nesting ≤ nestingLimit) ∧
      read .between ts final = statements.map .statement) ∨
    ((∃ s ∈ statements, nestingLimit < s.nesting) ∧
      ∃ t, Event.complaint t .tooDeep ∈ read .between ts final) := by
  induction h with
  | nil => exact .inl ⟨by simp, rfl⟩
  | separator kind _ ih =>
    rw [read_between_separator _ _ (Kind.isSeparator_iff.2 kind)]
    exact ih hc
  | @last s ts spells =>
    have hs := read_statement (hc s (by simp)) spells [] final
    rw [List.append_nil] at hs
    rcases hs with ⟨hfits, printing, waiting, x, hnode, hread⟩ | ⟨hover, hread⟩
    · refine .inl ⟨by simpa using hfits, ?_⟩
      rw [hread, ← hnode]
      rfl
    · exact .inr ⟨⟨s, by simp, hover⟩, hread⟩
  | @cons s ts t statements more spells kind _ ih =>
    have hsep := Kind.isSeparator_iff.2 kind
    rcases read_statement (hc s (by simp)) spells (t :: more) final with
      ⟨hfits, printing, waiting, x, hnode, hread⟩ | ⟨hover, hread⟩
    · rw [hread, read_holding_separator _ _ hsep, hnode]
      rcases ih (fun s' hs' => hc s' (List.mem_cons_of_mem _ hs')) with
        ⟨hfits', hread'⟩ | ⟨⟨s', hs', hover⟩, u, hu⟩
      · refine .inl ⟨?_, by rw [hread']; rfl⟩
        intro s' hs'
        rcases List.mem_cons.1 hs' with rfl | hs'
        · exact hfits
        · exact hfits' s' hs'
      · exact .inr ⟨⟨s', List.mem_cons_of_mem _ hs', hover⟩, u, List.mem_cons_of_mem _ hu⟩
    · exact .inr ⟨⟨s, by simp, hover⟩, hread⟩

/-- A token list is read up to its first end-of-file token. -/
theorem parse?_append_cons {ts : List Token} {final : Token}
    (hts : ∀ t ∈ ts, t.kind ≠ .endOfFile) (hfinal : final.kind = .endOfFile) (rest : List Token) :
    parse? (ts ++ final :: rest) = some (ofEvents (read .between ts final)) := by
  have hbody : ∀ t ∈ ts, (t.kind != .endOfFile) = true := by simpa using hts
  have hend : (final.kind != .endOfFile) = false := by rw [hfinal]; rfl
  simp only [parse?]
  rw [List.dropWhile_append_of_pos hbody, List.takeWhile_append_of_pos hbody]
  simp only [List.dropWhile, List.takeWhile, hend, List.append_nil]

theorem parse?_append_endOfFile {ts : List Token} {final : Token}
    (hts : ∀ t ∈ ts, t.kind ≠ .endOfFile) (hfinal : final.kind = .endOfFile) :
    parse? (ts ++ [final]) = some (ofEvents (read .between ts final)) :=
  parse?_append_cons hts hfinal []

theorem ofEvents_map_statement (statements : List Node) :
    ofEvents (statements.map .statement) = ⟨statements, []⟩ := by
  simp [ofEvents, Event.statement?, Event.diagnostic?, Function.comp_def]

theorem mem_diagnostics_of_complaint {events : List Event} {t : Token} {c : Complaint}
    (h : .complaint t c ∈ events) :
    .atToken t c.message .compile ∈ (ofEvents events).diagnostics :=
  List.mem_filterMap.2 ⟨_, h, rfl⟩

/-- **The front end reads back every program of the grammar.** A token list that spells canonical
statements is parsed to these statements without a diagnostic exactly if no statement is nested
beyond the limit. -/
theorem parse?_eq_some_iff_of_writes {statements : List Node} {ts : List Token} {final : Token}
    (hc : ∀ s ∈ statements, s.Canonical) (hw : Writes statements ts)
    (hfinal : final.kind = .endOfFile) :
    parse? (ts ++ [final]) = some ⟨statements, []⟩ ↔
      ∀ s ∈ statements, s.nesting ≤ nestingLimit := by
  rw [parse?_append_endOfFile (hw.ne_endOfFile hc) hfinal, Option.some.injEq]
  rcases read_writes hw hc final with ⟨hfits, hread⟩ | ⟨⟨s, hs, hover⟩, t, ht⟩
  · rw [hread, ofEvents_map_statement]
    exact iff_of_true rfl hfits
  · refine iff_of_false ?_ fun hfits => absurd (hfits s hs) (Nat.not_le.2 hover)
    intro heq
    have hmem := mem_diagnostics_of_complaint ht
    rw [heq] at hmem
    cases hmem

/-- `print 1 - 2 * (a);` is read back. -/
theorem parse?_print_difference :
    parse? ([⟨.printWord, "print", 1⟩, ⟨.number, "1", 1⟩, ⟨.minus, "-", 1⟩, ⟨.number, "2", 1⟩,
        ⟨.star, "*", 1⟩, ⟨.leftParen, "(", 1⟩, ⟨.identifier, "a", 1⟩, ⟨.rightParen, ")", 1⟩,
        ⟨.semicolon, ";", 1⟩] ++ [⟨.endOfFile, "", 1⟩]) =
      some ⟨[.print (.binary (.literal ⟨.number, "1", 1⟩) ⟨.minus, "-", 1⟩
        (.binary (.literal ⟨.number, "2", 1⟩) ⟨.star, "*", 1⟩
          (.grouping (.literal ⟨.identifier, "a", 1⟩))))], []⟩ := by
  have hliteral : ∀ {t : Token} (level : Level), t.kind.isLiteral = true →
      (Node.literal t).OfLevel level := fun level ht =>
    (Node.OfLevel.literal (Kind.isLiteral_iff.1 ht)).loosen level.rank_le
  have hgroup : (Node.grouping (.literal ⟨.identifier, "a", 1⟩)).OfLevel .unary :=
    .ofTighter (.grouping (hliteral .assignment rfl))
  have hproduct : (Node.binary (.literal ⟨.number, "2", 1⟩) ⟨.star, "*", 1⟩
      (.grouping (.literal ⟨.identifier, "a", 1⟩))).OfLevel .factor :=
    .operation (by decide) (hliteral .factor rfl) hgroup
  have hdifference : (Node.binary (.literal ⟨.number, "1", 1⟩) ⟨.minus, "-", 1⟩
      (.binary (.literal ⟨.number, "2", 1⟩) ⟨.star, "*", 1⟩
        (.grouping (.literal ⟨.identifier, "a", 1⟩)))).OfLevel .term :=
    .operation (by decide) (hliteral .term rfl) hproduct
  refine (parse?_eq_some_iff_of_writes ?_ ?_ rfl).2 ?_
  · intro s hs
    rw [List.mem_singleton.1 hs]
    exact .print (hdifference.loosen (by decide))
  · exact .cons (.print rfl (.binary (.literal _) (.binary (.literal _)
      (.grouping rfl rfl (.literal _))))) (.inl rfl) .nil
  · intro s hs
    rw [List.mem_singleton.1 hs]
    decide

end FrontEnd.Recovering

end Scriptlet
