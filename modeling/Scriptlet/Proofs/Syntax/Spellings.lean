import Scriptlet.Proofs.Syntax.Grammar

/-!
# Reading what spells an expression

Reading the tokens that spell an expression of the grammar leads from a place where an operand is
wanted to one where an operand is held, and never beyond a nesting limit that the expression keeps
to; a limit that it does not keep to is passed on the way (`leads_of_spells`). The limit is a
parameter: a front end without one takes the nesting of the expression itself.

The heart is `ReadsAt.of_ofLevel`. The expression need not be built yet when its last token has been
read: its latest operators still wait, above those that waited before. What makes the levels stop at
the right token is the order of the ranks: what waited before binds looser than the level, and what
waits above it binds at least as tightly, so the next operator of the level settles exactly the
expression (`Waiting.settle_append`).

No token of a statement is a separator or ends the program (`Node.Canonical.inner`).
-/

namespace Scriptlet

/-! ## What an arriving operator settles -/

namespace Waiting

theorem settleAll_append (above below : List Waiting) (operand : Node) :
    settleAll (above ++ below) operand = settleAll below (settleAll above operand) := by
  simp only [settleAll, List.foldl_append]

theorem settle_of_lt {bound : Nat} {waiting : List Waiting} (operand : Node)
    (h : ∀ w ∈ waiting, w.rank < bound) : settle bound waiting operand = (waiting, operand) := by
  cases waiting with
  | nil => rfl
  | cons w rest =>
    have hw := h w List.mem_cons_self
    simp only [settle, Nat.not_le.2 hw, if_false]

/-- Settling stops where the operands that wait bind looser than the bound. -/
theorem settle_append {bound : Nat} {above below : List Waiting} (operand : Node)
    (habove : ∀ w ∈ above, bound ≤ w.rank) (hbelow : ∀ w ∈ below, w.rank < bound) :
    settle bound (above ++ below) operand = (below, settleAll above operand) := by
  induction above generalizing operand with
  | nil => exact settle_of_lt operand hbelow
  | cons w rest ih =>
    have hw := habove w List.mem_cons_self
    simp only [List.cons_append, settle, hw, if_true]
    exact ih _ fun w' hw' => habove w' (List.mem_cons_of_mem _ hw')

end Waiting

namespace Reading

variable {limit : Nat}

/-! ## Runs of readings -/

/-- Tokens of a statement lead from one reading to another, never beyond the nesting limit. -/
inductive Leads (limit : Nat) : Reading → List Token → Reading → Prop
  | refl (r : Reading) : Leads limit r [] r
  | step {r r' r'' : Reading} {t : Token} {ts : List Token} (inside : t.kind.isSeparator = false)
      (taken : r.step t = some r') (light : r'.load ≤ limit) (rest : Leads limit r' ts r'') :
      Leads limit r (t :: ts) r''

namespace Leads

theorem single {r r' : Reading} {t : Token} (inside : t.kind.isSeparator = false)
    (taken : r.step t = some r') (light : r'.load ≤ limit) : Leads limit r [t] r' :=
  .step inside taken light (.refl r')

theorem trans {r r' r'' : Reading} {ts us : List Token} (h : Leads limit r ts r')
    (h' : Leads limit r' us r'') : Leads limit r (ts ++ us) r'' := by
  induction h with
  | refl r => exact h'
  | step inside taken light _ ih => exact .step inside taken light (ih h')

end Leads

/-- Some token of a statement leads beyond the nesting limit. -/
inductive Overflows (limit : Nat) : Reading → List Token → Prop
  | here {r r' : Reading} {t : Token} {ts : List Token} (inside : t.kind.isSeparator = false)
      (taken : r.step t = some r') (heavy : limit < r'.load) : Overflows limit r (t :: ts)
  | later {r r' : Reading} {t : Token} {ts : List Token} (inside : t.kind.isSeparator = false)
      (taken : r.step t = some r') (light : r'.load ≤ limit) (rest : Overflows limit r' ts) :
      Overflows limit r (t :: ts)

namespace Overflows

theorem append {r : Reading} {ts : List Token} (h : Overflows limit r ts) (us : List Token) :
    Overflows limit r (ts ++ us) := by
  induction h with
  | here inside taken heavy => exact .here inside taken heavy
  | later inside taken light _ ih => exact .later inside taken light ih

theorem of_leads {r r' : Reading} {ts us : List Token} (h : Leads limit r ts r')
    (h' : Overflows limit r' us) : Overflows limit r (ts ++ us) := by
  induction h with
  | refl r => exact h'
  | step inside taken light _ ih => exact .later inside taken light (ih h')

end Overflows

/-! ## Reading an expression -/

/-- Reading a spelling of the expression where an operand that binds at rank `n` is wanted: within
the nesting limit, it leads to where an operand is held, with those operators of the expression that
still wait on top of what waited before. -/
def ReadsAt (limit n : Nat) (e : Node) : Prop :=
  ∀ (ts : List Token), e.Spells ts → ∀ (outer : List Pending) (inner : Pending),
    (n < 6 → inner.signs = []) → (∀ w ∈ inner.waiting, w.rank < settleBound n) →
    (wanting outer inner).load ≤ limit →
    ((wanting outer inner).load + e.nesting ≤ limit ∧
      ∃ (above : List Waiting) (operand : Node), (∀ w ∈ above, n ≤ w.rank) ∧
        Waiting.settleAll above operand = inner.applySigns e ∧
        Leads limit (.wanting outer inner) ts (.holding outer (above ++ inner.waiting) operand)) ∨
    (limit < (wanting outer inner).load + e.nesting ∧
      Overflows limit (.wanting outer inner) ts)

/-- An operator settles exactly the operand that was read at its rank. -/
theorem step_operator {outer : List Pending} {above below : List Waiting} {operand : Node}
    {op : Token} {n : Nat} (hop : op.kind.rank? = some n)
    (habove : ∀ w ∈ above, settleBound n ≤ w.rank)
    (hbelow : ∀ w ∈ below, w.rank < settleBound n) :
    (holding outer (above ++ below) operand).step op =
      some (.wanting outer { waiting := ⟨Waiting.settleAll above operand, op⟩ :: below }) := by
  simp only [Reading.step, hop]
  rw [Waiting.settle_append operand habove hbelow]

/-- The load of waiting for the right-hand side of an operator. -/
theorem load_operator (outer : List Pending) (l : Node) (op : Token) (waiting : List Waiting) :
    (wanting outer { waiting := ⟨l, op⟩ :: waiting }).load =
      (wanting outer { waiting := waiting }).load + if op.kind = .equal then 1 else 0 := by
  simp only [Reading.load, Reading.targets, List.countP_cons, List.length_nil, beq_iff_eq]
  omega

namespace ReadsAt

theorem literal {t : Token} {n : Nat} (h : t.kind.isLiteral = true) :
    ReadsAt limit n (.literal t) := by
  intro ts hs outer inner hsigns hwait hload
  cases hs
  refine .inl ⟨hload, [], inner.applySigns (.literal t), by simp, rfl, ?_⟩
  refine .single (Kind.isSeparator_of_isLiteral h) ?_ ?_
  · simp only [Reading.step, h, if_true, List.nil_append]
  · simp only [Reading.load, List.nil_append] at hload ⊢
    omega

theorem sign {op : Token} {e : Node} (h : op.kind.isSign = true) (he : ReadsAt limit 6 e) :
    ReadsAt limit 6 (.unary op e) := by
  intro ts hs outer inner hsigns hwait hload
  cases hs with
  | @unary _ _ us hus =>
  have hload' : (wanting outer { inner with signs := op :: inner.signs }).load =
      (wanting outer inner).load + 1 := by
    simp only [Reading.load, List.length_cons]
    omega
  have hinside := Kind.isSeparator_of_isSign h
  have hstep : (wanting outer inner).step op =
      some (.wanting outer { inner with signs := op :: inner.signs }) := by
    simp only [Reading.step, Kind.isLiteral_of_isSign h, h, if_true, Bool.false_eq_true, if_false]
  simp only [Node.nesting]
  by_cases hlight : (wanting outer inner).load + 1 ≤ limit
  · rcases he us hus outer { inner with signs := op :: inner.signs }
      (fun h6 => absurd h6 (by decide)) hwait (by omega) with
      ⟨hfits, above, x, habove, hsettle, hrun⟩ | ⟨hover, hrun⟩
    · exact .inl ⟨by omega, above, x, habove, hsettle, .step hinside hstep (by omega) hrun⟩
    · exact .inr ⟨by omega, .later hinside hstep (by omega) hrun⟩
  · exact .inr ⟨by omega, .here hinside hstep (by omega)⟩

theorem grouping {e : Node} {n : Nat} (he : ReadsAt limit 0 e) : ReadsAt limit n (.grouping e) := by
  intro ts hs outer inner hsigns hwait hload
  cases hs with
  | @grouping _ us opening closing isOpening isClosing hus =>
  have hload' : (Reading.wanting (inner :: outer) {}).load =
      (wanting outer inner).load + Reading.groupLoad := by
    simp only [Reading.load, Reading.load.around, Reading.targets, List.countP_nil, List.length_nil]
    omega
  have hinside : opening.kind.isSeparator = false := by rw [isOpening]; rfl
  have hstep :
      (wanting outer inner).step opening = some (.wanting (inner :: outer) {}) := by
    simp [Reading.step, isOpening, Kind.isLiteral, Kind.isSign]
  simp only [Node.nesting]
  by_cases hlight : (wanting outer inner).load + Reading.groupLoad ≤ limit
  · rcases he us hus (inner :: outer) {} (fun _ => rfl) (by simp) (by omega) with
      ⟨hfits, above, x, habove, hsettle, hrun⟩ | ⟨hover, hrun⟩
    · refine .inl ⟨by omega, [], inner.applySigns (.grouping e), by simp, rfl, ?_⟩
      refine .step hinside hstep (by omega) (hrun.trans (.single ?_ ?_ ?_))
      · rw [isClosing]; rfl
      · simp only [Reading.step, isClosing, Kind.rank?, List.append_nil, hsettle, List.nil_append]
        rfl
      · simp only [Reading.load, List.nil_append] at hload ⊢
        omega
    · exact .inr ⟨by omega, .later hinside hstep (by omega) (hrun.append _)⟩
  · exact .inr ⟨by omega, .here hinside hstep (by omega)⟩

theorem binary {l r : Node} {op : Token} {n : Nat} (hop : op.kind.rank? = some n)
    (hl : ReadsAt limit (settleBound n) l) (hr : ReadsAt limit (rightRank n) r) :
    ReadsAt limit n (.binary l op r) := by
  intro ts hs outer inner hsigns hwait hload
  cases hs with
  | @binary _ _ _ ls rs hls hrs =>
  have hn : n ≤ 5 := Kind.rank?_le hop
  have hsig : inner.signs = [] := hsigns (by omega)
  obtain ⟨waiting, signs⟩ := inner
  obtain rfl : signs = [] := hsig
  have hinside := Kind.isSeparator_of_rank? hop
  have hload' := load_operator outer l op waiting
  -- the nesting of the whole, told by its two sides
  have hnest : (wanting outer ⟨waiting, []⟩).load + (Node.binary l op r).nesting =
      max ((wanting outer ⟨waiting, []⟩).load + l.nesting)
        ((wanting outer { waiting := ⟨l, op⟩ :: waiting }).load + r.nesting) := by
    simp only [Node.nesting]
    by_cases hk : op.kind = .equal <;> simp only [hk, if_true, if_false] at hload' ⊢ <;> omega
  have hwait' : ∀ w ∈ (⟨l, op⟩ :: waiting : List Waiting),
      w.rank < settleBound (rightRank n) := by
    intro w hw
    rcases List.mem_cons.1 hw with rfl | hw
    · simpa [Waiting.rank, hop] using Reading.lt_settleBound_rightRank n
    · exact Nat.lt_of_lt_of_le (hwait w hw) (settleBound_mono (Reading.le_rightRank n))
  -- the left-hand side, settled by the operator
  rcases hl ls hls outer ⟨waiting, []⟩ (fun _ => rfl)
    (by rwa [settleBound_settleBound]) hload with
    ⟨hfits, above, x, habove, hsettle, hrun⟩ | ⟨hover, hrun⟩
  · have hstep : (holding outer (above ++ waiting) x).step op =
        some (.wanting outer { waiting := ⟨l, op⟩ :: waiting }) := by
      rw [step_operator hop habove hwait, hsettle]
      rfl
    by_cases hlight : (wanting outer { waiting := ⟨l, op⟩ :: waiting }).load ≤ limit
    -- the right-hand side, on top of the left-hand side and its operator
    · rcases hr rs hrs outer { waiting := ⟨l, op⟩ :: waiting } (fun _ => rfl) hwait' hlight with
        ⟨hfits', above', y, habove', hsettle', hrun'⟩ | ⟨hover, hrun'⟩
      · refine .inl ⟨by omega, above' ++ [⟨l, op⟩], y, ?_, ?_, ?_⟩
        · intro w hw
          rcases List.mem_append.1 hw with hw | hw
          · exact Nat.le_trans (Reading.le_rightRank n) (habove' w hw)
          · rw [List.mem_singleton.1 hw]
            simp [Waiting.rank, hop]
        · rw [Waiting.settleAll_append, hsettle']
          rfl
        · rw [List.append_assoc]
          exact hrun.trans (.step hinside hstep hlight hrun')
      · exact .inr ⟨by omega, .of_leads hrun (.later hinside hstep hlight hrun')⟩
    · exact .inr ⟨by omega, .of_leads hrun (.here hinside hstep (by omega))⟩
  · exact .inr ⟨by omega, hrun.append _⟩

theorem mono {e : Node} {m n : Nat} (h : ReadsAt limit n e) (hle : m ≤ n) : ReadsAt limit m e := by
  intro ts hs outer inner hsigns hwait hload
  rcases h ts hs outer inner (fun hlt => hsigns (by omega))
    (fun w hw => Nat.lt_of_lt_of_le (hwait w hw) (settleBound_mono hle)) hload with
    ⟨hfits, above, x, habove, hsettle, hrun⟩ | hover
  · exact .inl ⟨hfits, above, x, fun w hw => Nat.le_trans hle (habove w hw), hsettle, hrun⟩
  · exact .inr hover

/-- Every expression of the grammar is read where its level is wanted. -/
theorem of_ofLevel {level : Level} {e : Node} (h : e.OfLevel level) :
    ReadsAt limit level.rank e := by
  induction h with
  | @assignment target value op equal _ _ ihl ihr =>
    have hop : op.kind.rank? = some 0 := by rw [equal]; rfl
    exact binary hop ihl ihr
  | @operation level l r op mem _ _ ihl ihr =>
    obtain ⟨hop, hpos, hlt⟩ := Level.rank?_of_mem_operators mem
    have hne : level.rank ≠ 0 := by omega
    refine binary hop ?_ ?_
    · rwa [settleBound, if_neg hne]
    · rwa [rightRank, if_neg hne, ← Level.rank_tighter (by omega)]
  | sign kind _ ih => exact sign (Kind.isSign_iff.2 kind) ih
  | literal mem => exact literal (Kind.isLiteral_iff.2 mem)
  | grouping _ ih => exact grouping ih
  | @ofTighter level e _ ih => exact ih.mono level.rank_le_tighter

end ReadsAt

/-- The tokens that spell an expression lead to where it is held, if it keeps to the limit, and
beyond the limit otherwise. -/
theorem leads_of_spells (limit : Nat) {e : Node} {ts : List Token} (he : e.OfLevel .assignment)
    (hs : e.Spells ts) :
    (e.nesting ≤ limit ∧ ∃ (waiting : List Waiting) (operand : Node),
      Waiting.settleAll waiting operand = e ∧ Leads limit .start ts (.holding [] waiting operand)) ∨
    (limit < e.nesting ∧ Overflows limit .start ts) := by
  rcases ReadsAt.of_ofLevel he ts hs [] {} (fun _ => rfl) (by simp) (Nat.zero_le _) with
    ⟨hfits, above, x, -, hsettle, hrun⟩ | ⟨hover, hrun⟩
  · rw [List.append_nil] at hrun
    exact .inl ⟨by rw [← Nat.zero_add e.nesting]; exact hfits, above, x, hsettle, hrun⟩
  · exact .inr ⟨by rw [← Nat.zero_add e.nesting]; exact hover, hrun⟩

end Reading

/-! ## The tokens of a statement -/

namespace Node

/-- The tokens that spell the tree stand inside a statement: none is a separator or ends the
program. -/
def Inner (n : Node) : Prop :=
  ∀ ⦃ts : List Token⦄, n.Spells ts → ∀ t ∈ ts, t.kind.isSeparator = false ∧ t.kind ≠ .endOfFile

theorem Inner.binary {l r : Node} {op : Token} {n : Nat} (hop : op.kind.rank? = some n)
    (hl : l.Inner) (hr : r.Inner) : (Node.binary l op r).Inner := by
  rintro _ (_ | _ | _ | ⟨hls, hrs⟩) t ht
  rcases List.mem_append.1 ht with ht | ht
  · exact hl hls t ht
  rcases List.mem_cons.1 ht with rfl | ht
  · refine ⟨Kind.isSeparator_of_rank? hop, fun hk => ?_⟩
    rw [hk] at hop
    cases hop
  · exact hr hrs t ht

theorem OfLevel.inner {level : Level} {e : Node} (h : e.OfLevel level) : e.Inner := by
  induction h with
  | assignment equal _ _ ihl ihr => exact .binary (n := 0) (by rw [equal]; rfl) ihl ihr
  | operation mem _ _ ihl ihr => exact .binary (Level.rank?_of_mem_operators mem).1 ihl ihr
  | sign kind _ ih =>
    rintro _ (_ | _ | ⟨he⟩ | _) t ht
    rcases List.mem_cons.1 ht with rfl | ht
    · rcases kind with hk | hk <;> rw [hk] <;> decide
    · exact ih he t ht
  | literal mem =>
    rintro _ ⟨⟩ t ht
    obtain rfl := List.mem_singleton.1 ht
    refine ⟨Kind.isSeparator_of_isLiteral (Kind.isLiteral_iff.2 mem), fun hk => ?_⟩
    rw [hk] at mem
    exact absurd mem (by decide)
  | grouping _ ih =>
    rintro _ (_ | ⟨isOpening, isClosing, he⟩ | _ | _) t ht
    rcases List.mem_append.1 ht with ht | ht
    · rcases List.mem_cons.1 ht with rfl | ht
      · rw [isOpening]; decide
      · exact ih he t ht
    · obtain rfl := List.mem_singleton.1 ht
      rw [isClosing]; decide
  | ofTighter _ ih => exact ih

theorem Canonical.inner {s : Node} (h : s.Canonical) : s.Inner := by
  intro ts hs
  cases h with
  | expression he =>
    cases hs with
    | expression hus => exact he.inner hus
  | print he =>
    cases hs with
    | print isPrint hus =>
      intro t ht
      rcases List.mem_cons.1 ht with rfl | ht
      · rw [isPrint]; decide
      · exact he.inner hus t ht

end Node

/-- The tokens that spell a program do not end it. -/
theorem Writes.ne_endOfFile {statements : List Node} {ts : List Token} (h : Writes statements ts)
    (hc : ∀ s ∈ statements, s.Canonical) : ∀ t ∈ ts, t.kind ≠ .endOfFile := by
  have hsep : ∀ {t : Token}, t.kind = .semicolon ∨ t.kind = .newline → t.kind ≠ .endOfFile := by
    rintro t (hk | hk) <;> rw [hk] <;> decide
  induction h with
  | nil => simp
  | separator kind _ ih =>
    intro u hu
    rcases List.mem_cons.1 hu with rfl | hu
    · exact hsep kind
    · exact ih hc u hu
  | last spells => exact fun u hu => ((hc _ List.mem_cons_self).inner spells u hu).2
  | cons spells kind _ ih =>
    intro u hu
    rcases List.mem_append.1 hu with hu | hu
    · exact ((hc _ List.mem_cons_self).inner spells u hu).2
    rcases List.mem_cons.1 hu with rfl | hu
    · exact hsep kind
    · exact ih (fun s hs => hc s (List.mem_cons_of_mem _ hs)) u hu

end Scriptlet
