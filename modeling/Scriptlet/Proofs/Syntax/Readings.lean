import Scriptlet.FrontEnd.Parsed
import Scriptlet.Proofs.Syntax.Grammar

/-!
# What a reading has read

`Reading.Reads r ts`: the reading `r` is what the tokens `ts` of an expression lead to. The tokens
fall into the parts that the reading keeps apart: what stands around each open parenthesis, the
operands that wait with their operators, the prefix operators, the operand held. Each part spells
its tree, and the ranks of the operators that wait rise towards the latest, which is what makes the
joined trees obey the grammar.

Every step keeps this (`Reads.step`), and an expression that may end is one of the grammar, spelled
by all the tokens read (`Reads.finished`); a statement is such an expression, after the word `print`
or not (`ReadsStatement`). Nothing here depends on the nesting limit or on how a front end recovers.
-/

namespace Scriptlet

open Reading (settleBound rightRank)

/-! ## Operands that wait -/

namespace Waiting

/-- The tokens that operands waiting with their operators were read from. The ranks fall from the
latest to the earliest, except that assignments may follow one another. -/
inductive Reads : List Waiting → List Token → Prop
  | nil : Reads [] []
  | cons {w : Waiting} {waiting : List Waiting} {n : Nat} {ts ls : List Token}
      (operator : w.operator.kind.rank? = some n) (binds : w.left.BindsAt (settleBound n))
      (spells : w.left.Spells ls) (below : ∀ w' ∈ waiting, w'.rank < settleBound n)
      (rest : Reads waiting ts) : Reads (w :: waiting) (ts ++ ls ++ [w.operator])

/-- An operand can be the right-hand side of every operator that waits. -/
def Fits (waiting : List Waiting) (operand : Node) : Prop :=
  ∀ w ∈ waiting, operand.BindsAt (rightRank w.rank)

theorem rank_eq {w : Waiting} {n : Nat} (h : w.operator.kind.rank? = some n) : w.rank = n := by
  simp only [rank, h, Option.getD_some]

/-- Settling keeps the tokens, and joins an operand of the bound that was asked for. -/
theorem Reads.settle {waiting : List Waiting} {ts : List Token} (h : Reads waiting ts) :
    ∀ {operand : Node} {xs : List Token} (bound : Nat), operand.Spells xs →
      Fits waiting operand → operand.BindsAt bound →
      ∃ ts' xs', ts ++ xs = ts' ++ xs' ∧ Reads (Waiting.settle bound waiting operand).1 ts' ∧
        (Waiting.settle bound waiting operand).2.Spells xs' ∧
        (Waiting.settle bound waiting operand).2.BindsAt bound ∧
        ∀ w ∈ (Waiting.settle bound waiting operand).1, w.rank < bound := by
  induction h with
  | nil =>
    intro operand xs bound hs _ hb
    exact ⟨[], xs, rfl, .nil, hs, hb, by simp [Waiting.settle]⟩
  | @cons w waiting n ts ls operator binds spells below rest ih =>
    intro operand xs bound hs hfits hb
    have hrank := rank_eq operator
    have hright := hfits w List.mem_cons_self
    rw [hrank] at hright
    by_cases hle : bound ≤ w.rank
    · -- the latest operator is settled, and what it joins fits those below it
      have hjoined := Node.BindsAt.binary operator binds hright
      simp only [Waiting.settle, hle, if_true]
      obtain ⟨ts', xs', heq, hreads, hspells, hbinds, hlt⟩ :=
        ih bound (.binary spells hs)
          (fun w' hw' => hjoined.mono (Reading.rightRank_le (below w' hw')))
          (hjoined.mono (by omega))
      refine ⟨ts', xs', ?_, hreads, hspells, hbinds, hlt⟩
      rw [← heq]
      simp
    · simp only [Waiting.settle, hle, if_false]
      refine ⟨_, xs, rfl, .cons operator binds spells below rest, hs, hb, ?_⟩
      intro w' hw'
      rcases List.mem_cons.1 hw' with rfl | hw'
      · omega
      · exact Reading.lt_of_lt_settleBound (below w' hw') (by omega)

/-- Joining all that waits gives an expression of the grammar. -/
theorem Reads.settleAll {waiting : List Waiting} {ts xs : List Token} {operand : Node}
    (h : Reads waiting ts) (hs : operand.Spells xs) (hfits : Fits waiting operand)
    (hb : operand.BindsAt 0) :
    (Waiting.settleAll waiting operand).Spells (ts ++ xs) ∧
      (Waiting.settleAll waiting operand).BindsAt 0 := by
  obtain ⟨ts', xs', heq, hreads, hspells, hbinds, -⟩ := h.settle 0 hs hfits hb
  rw [settle_zero] at hreads hspells hbinds
  cases hreads
  exact ⟨by rw [heq]; exact hspells, hbinds⟩

/-- What binds as tightly as an operand with its prefix operators can stand anywhere. -/
theorem Reads.fits {waiting : List Waiting} {ts : List Token} {operand : Node}
    (h : Reads waiting ts) (hb : operand.BindsAt 6) : Fits waiting operand := by
  induction h with
  | nil => simp [Fits]
  | cons operator _ _ _ _ ih =>
    intro w' hw'
    rcases List.mem_cons.1 hw' with rfl | hw'
    · rw [rank_eq operator]
      exact hb.mono (Reading.rightRank_le_six (Kind.rank?_le operator))
    · exact ih w' hw'

end Waiting

/-! ## Prefix operators and open parentheses -/

namespace Pending

/-- The tokens that an expression was read from up to a place where an operand must follow. -/
inductive Reads : Pending → List Token → Prop
  | mk {waiting : List Waiting} {signs ts : List Token} (waits : Waiting.Reads waiting ts)
      (areSigns : ∀ t ∈ signs, t.kind.isSign = true) : Reads ⟨waiting, signs⟩ (ts ++ signs.reverse)

theorem Reads.ofWaiting {waiting : List Waiting} {ts : List Token}
    (waits : Waiting.Reads waiting ts) : Reads { waiting := waiting } ts := by
  have := @Reads.mk waiting [] ts waits (by simp)
  rwa [List.reverse_nil, List.append_nil] at this

theorem Reads.empty : Reads {} [] := ofWaiting .nil

theorem spells_foldl_signs {signs : List Token} (hsigns : ∀ t ∈ signs, t.kind.isSign = true) :
    ∀ {operand : Node} {xs : List Token}, operand.Spells xs → operand.BindsAt 6 →
      (signs.foldl (fun e sign => .unary sign e) operand).Spells (signs.reverse ++ xs) ∧
        (signs.foldl (fun e sign => .unary sign e) operand).BindsAt 6 := by
  induction signs with
  | nil => exact fun hs hb => ⟨hs, hb⟩
  | cons sign signs ih =>
    intro operand xs hs hb
    have hsign := hsigns sign List.mem_cons_self
    have := ih (fun t ht => hsigns t (List.mem_cons_of_mem _ ht)) (.unary hs)
      (Node.BindsAt.sign hsign hb)
    simpa using this

/-- An operand that arrives takes the prefix operators, and then waits or is held. -/
theorem Reads.applySigns {p : Pending} {ts xs : List Token} {operand : Node} (h : Reads p ts)
    (hs : operand.Spells xs) (hb : operand.BindsAt 6) :
    ∃ ws us, ts ++ xs = ws ++ us ∧ Waiting.Reads p.waiting ws ∧
      (p.applySigns operand).Spells us ∧ (p.applySigns operand).BindsAt 6 := by
  cases h with
  | @mk waiting signs ts waits areSigns =>
    obtain ⟨hspells, hbinds⟩ := spells_foldl_signs areSigns hs hb
    exact ⟨ts, signs.reverse ++ xs, by simp, waits, hspells, hbinds⟩

/-- The tokens around open parentheses, the innermost first. -/
inductive ReadAround : List Pending → List Token → Prop
  | nil : ReadAround [] []
  | cons {p : Pending} {outer : List Pending} {ts us : List Token} {opening : Token}
      (reads : Reads p us) (isOpening : opening.kind = .leftParen) (rest : ReadAround outer ts) :
      ReadAround (p :: outer) (ts ++ us ++ [opening])

end Pending

/-! ## Readings -/

namespace Reading

/-- The tokens of an expression that a reading has read. -/
inductive Reads : Reading → List Token → Prop
  | wanting {outer : List Pending} {inner : Pending} {ts us : List Token}
      (around : Pending.ReadAround outer ts) (reads : Pending.Reads inner us) :
      Reads (.wanting outer inner) (ts ++ us)
  | holding {outer : List Pending} {waiting : List Waiting} {operand : Node}
      {ts ws xs : List Token} (around : Pending.ReadAround outer ts)
      (waits : Waiting.Reads waiting ws) (spells : operand.Spells xs) (binds : operand.BindsAt 6) :
      Reads (.holding outer waiting operand) (ts ++ ws ++ xs)

namespace Reads

theorem start : Reads Reading.start [] :=
  .wanting .nil .empty

/-- An operand that arrives is held, with the prefix operators it takes. -/
theorem hold {outer : List Pending} {inner : Pending} {ts us xs : List Token} {operand : Node}
    (around : Pending.ReadAround outer ts) (reads : Pending.Reads inner us)
    (hs : operand.Spells xs) (hb : operand.BindsAt 6) :
    Reads (.holding outer inner.waiting (inner.applySigns operand)) (ts ++ us ++ xs) := by
  obtain ⟨ws, vs, heq, hwaits, hspells, hbinds⟩ := reads.applySigns hs hb
  have := Reads.holding around hwaits hspells hbinds
  rwa [List.append_assoc, ← heq, ← List.append_assoc] at this

/-- One more token is read. -/
theorem step {r r' : Reading} {ts : List Token} {t : Token} (h : Reads r ts)
    (hstep : r.step t = some r') : Reads r' (ts ++ [t]) := by
  cases h with
  | @wanting outer inner ts us around reads =>
    simp only [Reading.step] at hstep
    split at hstep
    · next hlit =>
      obtain rfl := Option.some.inj hstep
      exact hold around reads (.literal t) (.literal hlit)
    split at hstep
    · next hsign =>
      obtain rfl := Option.some.inj hstep
      cases reads with
      | @mk waiting signs ws waits areSigns =>
        have hsigns : ∀ u ∈ t :: signs, u.kind.isSign = true := by
          intro u hu
          rcases List.mem_cons.1 hu with rfl | hu
          · exact hsign
          · exact areSigns u hu
        have := Reads.wanting around (.mk waits hsigns)
        simpa using this
    split at hstep
    · next hopen =>
      obtain rfl := Option.some.inj hstep
      have := Reads.wanting (.cons reads hopen around) .empty
      simpa using this
    · cases hstep
  | @holding outer waiting operand ts ws xs around waits spells binds =>
    have hfits := waits.fits binds
    simp only [Reading.step] at hstep
    split at hstep
    · next n hrank =>
      obtain rfl := Option.some.inj hstep
      have hle := Kind.rank?_le hrank
      obtain ⟨ws', xs', heq, hreads, hspells, hbinds, hlt⟩ :=
        waits.settle (settleBound n) spells hfits (binds.mono (settleBound_le_six hle))
      have hwaits : Waiting.Reads (⟨(Waiting.settle (settleBound n) waiting operand).2, t⟩ ::
          (Waiting.settle (settleBound n) waiting operand).1) (ws' ++ xs' ++ [t]) :=
        .cons hrank hbinds hspells hlt hreads
      have := Reads.wanting around (.ofWaiting hwaits)
      rwa [← heq, ← List.append_assoc, ← List.append_assoc] at this
    split at hstep
    · next around' outer' hclose =>
      obtain rfl := Option.some.inj hstep
      obtain ⟨hspells, hbinds⟩ := waits.settleAll spells hfits (binds.mono (Nat.zero_le 6))
      cases around with
      | cons reads isOpening rest =>
        have := hold rest reads (.grouping isOpening hclose hspells) (.grouping hbinds)
        simpa using this
    · cases hstep

/-- An expression that may end is one of the grammar, spelled by what was read. -/
theorem finished {r : Reading} {ts : List Token} {e : Node} (h : Reads r ts)
    (hfin : r.finished? = some e) : e.OfLevel .assignment ∧ e.Spells ts := by
  cases h with
  | wanting => cases hfin
  | @holding outer waiting operand ts ws xs around waits spells binds =>
    cases around with
    | nil =>
      obtain rfl := Option.some.inj hfin
      obtain ⟨hspells, hbinds⟩ :=
        waits.settleAll spells (waits.fits binds) (binds.mono (Nat.zero_le 6))
      exact ⟨Node.BindsAt.ofLevel .assignment hbinds, hspells⟩
    | cons => cases hfin

end Reads

/-! ## Statements -/

/-- The tokens of a statement of which a reading has been reached. -/
def ReadsStatement (printing : Bool) (r : Reading) (tokens : List Token) : Prop :=
  if printing then ∃ word ts, tokens = word :: ts ∧ word.kind = .printWord ∧ r.Reads ts
  else r.Reads tokens

namespace ReadsStatement

theorem step {printing : Bool} {r r' : Reading} {tokens : List Token} {t : Token}
    (h : ReadsStatement printing r tokens) (hstep : r.step t = some r') :
    ReadsStatement printing r' (tokens ++ [t]) := by
  cases printing with
  | false => exact Reading.Reads.step h hstep
  | true =>
    obtain ⟨word, ts, rfl, hword, hreads⟩ := h
    exact ⟨word, ts ++ [t], rfl, hword, hreads.step hstep⟩

theorem finished {printing : Bool} {r : Reading} {tokens : List Token} {e : Node}
    (h : ReadsStatement printing r tokens) (hfin : r.finished? = some e) :
    (Node.ofExpression printing e).Canonical ∧ (Node.ofExpression printing e).Spells tokens := by
  cases printing with
  | false =>
    obtain ⟨hlevel, hspells⟩ := Reading.Reads.finished h hfin
    exact ⟨.expression hlevel, .expression hspells⟩
  | true =>
    obtain ⟨word, ts, rfl, hword, hreads⟩ := h
    obtain ⟨hlevel, hspells⟩ := hreads.finished hfin
    exact ⟨.print hlevel, .print hword hspells⟩

end ReadsStatement

end Reading

end Scriptlet
