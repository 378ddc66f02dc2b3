import Scriptlet.Proofs.Scopes.Frames

/-!
# Leaving a block

What happens inside a block comes down to operations one after another, in which the operations of
a block inside it stand between a push and a pop (`Scopes.Performs`). A failure changes nothing by
itself. It may end the block and the blocks around it or be dealt with on the spot, so a block can be
left after any of its operations, and all the ways in which it can be left are covered at once.

As long as the operations stay above the first frames, they reach these frames by assignments to
names that they own, and in no other way (`Scopes.binding?_run`). Hence these frames neither come
nor go, none but the global one gets a new name, and each change of a value can be traced to an
assignment (`Scopes.Above.kept`, `Scopes.Above.exists_assign`).
-/

namespace Scriptlet.Scopes

variable {α : Type} {s t : Scopes α} {d : Nat} {step : Step α} {steps body done : List (Step α)}

/-! ## What is performed -/

/-- The operation has operations of its own. -/
def Step.isBlock : Step α → Bool
  | .block _ => true
  | _ => false

/-- The operations that a sequence can come down to when it is left at some point. -/
inductive Performs : List (Step α) → List (Step α) → Prop
  | leave (steps : List (Step α)) : Performs steps []
  | step {step : Step α} {rest done : List (Step α)} (simple : step.isBlock = false)
      (h : Performs rest done) : Performs (step :: rest) (step :: done)
  | block {body rest inside done : List (Step α)} (hbody : Performs body inside)
      (h : Performs rest done) : Performs (.block body :: rest) (.push :: inside ++ .pop :: done)

theorem Performs.isBlock (h : Performs steps done) : ∀ step ∈ done, step.isBlock = false := by
  induction h with
  | leave => exact fun _ hstep => absurd hstep List.not_mem_nil
  | step simple _ ih => exact List.forall_mem_cons.2 ⟨simple, ih⟩
  | block _ _ ihbody ih =>
    intro step hstep
    rcases List.mem_append.1 hstep with hstep | hstep
    · exact (List.mem_cons.1 hstep).elim (fun heq => heq ▸ rfl) (ihbody step)
    · exact (List.mem_cons.1 hstep).elim (fun heq => heq ▸ rfl) (ih step)

namespace Step

theorem runBody_cons_of_ok {reply : Reply α} (h : (step.run s).2 = .ok reply)
    (rest : List (Step α)) : (runBody s (step :: rest)).1 = (runBody (step.run s).1 rest).1 := by
  rw [runBody, show step.run s = ((step.run s).1, .ok reply) from Prod.ext rfl h]

theorem runBody_cons_of_error {e : ScopeError} (h : (step.run s).2 = .error e)
    (rest : List (Step α)) : (runBody s (step :: rest)).1 = (step.run s).1 := by
  rw [runBody, show step.run s = ((step.run s).1, .error e) from Prod.ext rfl h]

theorem run_block (s : Scopes α) (body : List (Step α)) :
    ∃ reply, (Step.block body).run s = ((Step.pop.run (runBody s.push body).1).1, .ok reply) := by
  simp only [run]
  cases (runBody s.push body).1.pop <;> exact ⟨_, rfl⟩

/-- An operation without operations of its own is performed; if it fails, it is the last. -/
theorem exists_performs_cons (hsimple : step.isBlock = false) {rest : List (Step α)}
    (h : ∃ done, Performs rest done ∧ (runBody (step.run s).1 rest).1 = (step.run s).1.after done) :
    ∃ done, Performs (step :: rest) done ∧ (runBody s (step :: rest)).1 = s.after done := by
  cases hreply : (step.run s).2 with
  | ok reply =>
    obtain ⟨done, hdone, hrest⟩ := h
    exact ⟨step :: done, .step hsimple hdone, (runBody_cons_of_ok hreply rest).trans hrest⟩
  | error e =>
    exact ⟨[step], .step hsimple (.leave rest), runBody_cons_of_error hreply rest⟩

/-- What a block does is one of the ways to perform it: it is left at the first operation that fails,
and the failure of a block inside it is dealt with at once. -/
theorem exists_performs (s : Scopes α) :
    ∀ body : List (Step α), ∃ done, Performs body done ∧ (runBody s body).1 = s.after done
  | [] => ⟨[], .leave _, rfl⟩
  | step :: rest => by
    have hrest := exists_performs (step.run s).1 rest
    cases step with
    | block body =>
      obtain ⟨done, hdone, hrest⟩ := hrest
      obtain ⟨inside, hinside, hbody⟩ := exists_performs s.push body
      obtain ⟨reply, hrun⟩ := run_block s body
      refine ⟨_, .block hinside hdone, ?_⟩
      rw [runBody_cons_of_ok (congrArg Prod.snd hrun), hrest, congrArg Prod.fst hrun, hbody]
      exact (after_append s.push inside (.pop :: done)).symm
    | _ => exact exists_performs_cons rfl hrest

end Step

/-! ## The frames below -/

/-- Each operation, with the scopes in which it ran. -/
def history (s : Scopes α) : List (Step α) → List (Scopes α × Step α)
  | [] => []
  | step :: rest => (s, step) :: (step.run s).1.history rest

/-- The operations stay above the first `d` frames. -/
structure Above (d : Nat) (s : Scopes α) (steps : List (Step α)) : Prop where
  simple : ∀ step ∈ steps, step.isBlock = false
  start : d < s.depth
  pops : ∀ t, (t, .pop) ∈ s.history steps → d + 1 < t.depth

/-- The first `d` frames have the names they had, and none but the global one has another. -/
structure Kept (d : Nat) (s t : Scopes α) : Prop where
  keeps : ∀ i < d, ∀ name, (s.binding? i name).isSome = true → (t.binding? i name).isSome = true
  adds : ∀ i < d, i ≠ 0 → ∀ name, (t.binding? i name).isSome = true →
    (s.binding? i name).isSome = true

theorem Kept.refl (d : Nat) (s : Scopes α) : Kept d s s := ⟨fun _ _ _ h => h, fun _ _ _ _ h => h⟩

theorem Kept.trans {u : Scopes α} (h : Kept d s t) (h' : Kept d t u) : Kept d s u :=
  ⟨fun i hi name hname => h'.keeps i hi name (h.keeps i hi name hname),
    fun i hi hne name hname => h.adds i hi hne name (h'.adds i hi hne name hname)⟩

section Operations

variable (hsimple : step.isBlock = false) (hd : d < s.depth) (hpop : step = .pop → d + 1 < s.depth)

include hsimple hd hpop

theorem lt_depth_run : d < (step.run s).1.depth := by
  cases step with
  | push => exact Nat.lt_succ_of_lt hd
  | pop =>
    obtain ⟨f, t, hleft⟩ := exists_pop (Nat.lt_of_le_of_lt (Nat.le_add_left 1 d) (hpop rfl))
    have hdepth := depth_of_pop hleft
    have hlt := hpop rfl
    simp only [run_pop hleft]
    omega
  | get name =>
    simp only [Step.run]
    split <;> exact hd
  | define name a => simpa [Step.run] using hd
  | assign name a => simpa [Step.run] using hd
  | globals => exact hd
  | block body => cases hsimple

/-- An operation changes a binding of the frames below only by an assignment to a name that the
frame owns. -/
theorem binding?_run {i : Nat} (hi : i < d) (name : String) :
    (step.run s).1.binding? i name = s.binding? i name ∨
      ∃ a, step = .assign name a ∧ s.Owns name i ∧ (step.run s).1.binding? i name = some a := by
  cases step with
  | push => exact .inl (binding?_push s i name)
  | pop =>
    obtain ⟨f, t, hleft⟩ := exists_pop (Nat.lt_of_le_of_lt (Nat.le_add_left 1 d) (hpop rfl))
    have hdepth := depth_of_pop hleft
    rw [run_pop hleft]
    exact .inl (binding?_of_pop hleft (by omega) name)
  | get _ =>
    simp only [Step.run]
    split <;> exact .inl rfl
  | define m a =>
    -- The last frame, which a definition writes to, is above.
    refine .inl ((binding?_define s m a i name).trans (if_neg ?_))
    omega
  | assign m a =>
    obtain ⟨j, howns, -⟩ := s.exists_owns_frames_assign m a
    by_cases heq : i = j ∧ name = m
    · obtain ⟨rfl, rfl⟩ := heq
      exact .inr ⟨a, rfl, howns, (howns.binding?_assign a i name).trans (if_pos ⟨rfl, rfl⟩)⟩
    · exact .inl ((howns.binding?_assign a i name).trans (if_neg heq))
  | globals => exact .inl rfl
  | block body => cases hsimple

theorem kept_run : Kept d s (step.run s).1 := by
  constructor
  · intro i hi name hname
    rcases binding?_run hsimple hd hpop hi name with heq | ⟨a, -, -, heq⟩
    · rwa [heq]
    · rw [heq]
      rfl
  · intro i hi hne name hname
    rcases binding?_run hsimple hd hpop hi name with heq | ⟨a, -, howns, -⟩
    · rwa [← heq]
    · exact howns.bound hne

end Operations

namespace Above

variable {rest : List (Step α)}

theorem isBlock_head (h : Above d s (step :: rest)) : step.isBlock = false :=
  h.simple step List.mem_cons_self

theorem lt_of_pop (h : Above d s (step :: rest)) (hpop : step = .pop) : d + 1 < s.depth :=
  h.pops s (hpop ▸ List.mem_cons_self)

theorem tail (h : Above d s (step :: rest)) : Above d (step.run s).1 rest where
  simple t ht := h.simple t (List.mem_cons_of_mem _ ht)
  start := lt_depth_run h.isBlock_head h.start h.lt_of_pop
  pops t ht := h.pops t (List.mem_cons_of_mem _ ht)

/-- Operations that stay above some frames keep their names. -/
theorem kept (h : Above d s steps) : Kept d s (s.after steps) := by
  induction steps generalizing s with
  | nil => exact .refl d s
  | cons step rest ih => exact (kept_run h.isBlock_head h.start h.lt_of_pop).trans (ih h.tail)

/-- A changed value of a frame below was assigned when the frame owned the name. -/
theorem exists_assign (h : Above d s steps) {i : Nat} (hi : i < d) {name : String}
    (hne : (s.after steps).binding? i name ≠ s.binding? i name) :
    ∃ t a, (t, .assign name a) ∈ s.history steps ∧ t.Owns name i := by
  induction steps generalizing s with
  | nil => exact absurd rfl hne
  | cons step rest ih =>
    rcases binding?_run h.isBlock_head h.start h.lt_of_pop hi name with heq | ⟨a, rfl, howns, -⟩
    · obtain ⟨t, a, ht, howns⟩ := ih h.tail (heq ▸ hne)
      exact ⟨t, a, List.mem_cons_of_mem _ ht, howns⟩
    · exact ⟨s, a, List.mem_cons_self, howns⟩

end Above

theorem mem_of_mem_history (h : (t, step) ∈ s.history steps) : step ∈ steps := by
  induction steps generalizing s with
  | nil => cases h
  | cons first rest ih =>
    rcases List.mem_cons.1 h with heq | h
    · cases heq
      exact List.mem_cons_self
    · exact List.mem_cons_of_mem _ (ih h)

/-! ## Leaving -/

/-- Inside a new frame the operations never leave that frame, and they end in it. -/
structure Balanced (s : Scopes α) (done : List (Step α)) : Prop where
  stays : ∀ t, (t, .pop) ∈ s.push.history done → s.depth + 1 < t.depth
  returns : (s.push.after done).depth = s.depth + 1

namespace Balanced

theorem exists_pop (h : s.Balanced done) :
    ∃ own left, (s.push.after done).pop = .ok (own, left) := by
  have hpos := s.depth_pos
  exact Scopes.exists_pop (by rw [h.returns]; omega)

variable {own : Frame α} {left : Scopes α} {i : Nat} (h : s.Balanced done)
  (hpop : (s.push.after done).pop = .ok (own, left))

include h hpop

theorem depth_left : left.depth = s.depth :=
  Nat.succ.inj ((depth_of_pop hpop).symm.trans h.returns)

/-- The frame that is left has the last number, so the bindings below it stay. -/
theorem binding?_left (hi : i < s.depth) (name : String) :
    left.binding? i name = (s.push.after done).binding? i name :=
  binding?_of_pop hpop ((h.depth_left hpop).symm ▸ hi) name

theorem binding?_left_of_le (hi : s.depth ≤ i) (name : String) :
    left.binding? i name = s.binding? i name := by
  rw [binding?_eq_none_of_le hi, binding?_eq_none_of_le ((h.depth_left hpop).symm ▸ hi)]

variable (hsimple : ∀ step ∈ done, step.isBlock = false)

include hsimple

omit hpop in
theorem above : Above s.depth s.push done := ⟨hsimple, Nat.lt_succ_self _, h.stays⟩

theorem kept_left : Kept s.depth s left := by
  have hkept := (h.above hsimple).kept
  constructor
  · intro i hi name hname
    rw [h.binding?_left hpop hi]
    exact hkept.keeps i hi name ((binding?_push s i name).symm ▸ hname)
  · intro i hi hne name hname
    rw [h.binding?_left hpop hi] at hname
    exact binding?_push s i name ▸ hkept.adds i hi hne name hname

theorem exists_assign {name : String} (hne : left.binding? i name ≠ s.binding? i name) :
    ∃ t a, (t, .assign name a) ∈ s.push.history done ∧ t.Owns name i := by
  by_cases hi : i < s.depth
  · refine (h.above hsimple).exists_assign hi ?_
    rwa [← h.binding?_left hpop hi, binding?_push]
  · exact absurd (h.binding?_left_of_le hpop (Nat.le_of_not_lt hi) name) hne

end Balanced

/-- **A block unwinds.** What a block does is one of the ways to perform its operations. Whenever
these never leave the frame of the block and end in it, leaving the block succeeds and there are as
many frames as before. The inner ones of them have the names they had, and the global one at least
these; a value of theirs has changed only if it was assigned when no frame further in had the name.
Without assignments everything is as before. -/
theorem block_unwinds (s : Scopes α) (body : List (Step α)) :
    (∃ done, Performs body done ∧
      ((Step.block body).run s).1 = (Step.pop.run (s.push.after done)).1) ∧
      ∀ done, Performs body done → s.Balanced done →
        ∃ own left, Step.pop.run (s.push.after done) = (left, .ok (.popped own)) ∧
          left.depth = s.depth ∧
          (∀ i name, 0 < i → (left.binding? i name).isSome = (s.binding? i name).isSome) ∧
          (∀ name, (s.binding? 0 name).isSome = true → (left.binding? 0 name).isSome = true) ∧
          (∀ i name, left.binding? i name ≠ s.binding? i name →
            ∃ t a, (t, .assign name a) ∈ s.push.history done ∧
              ∀ j, i < j → t.binding? j name = none) ∧
          ((∀ name a, .assign name a ∉ done) → left = s) := by
  refine ⟨?_, fun done hdone hbalanced => ?_⟩
  · obtain ⟨done, hdone, hbody⟩ := Step.exists_performs s.push body
    obtain ⟨reply, hrun⟩ := Step.run_block s body
    exact ⟨done, hdone, by rw [hrun, hbody]⟩
  · obtain ⟨own, left, hpop⟩ := hbalanced.exists_pop
    have hdepth := hbalanced.depth_left hpop
    have hkept := hbalanced.kept_left hpop hdone.isBlock
    refine ⟨own, left, run_pop hpop, hdepth, ?_, ?_, ?_, ?_⟩
    · intro i name hpos
      by_cases hi : i < s.depth
      · exact Bool.eq_iff_iff.2 ⟨hkept.adds i hi (Nat.ne_of_gt hpos) name, hkept.keeps i hi name⟩
      · rw [hbalanced.binding?_left_of_le hpop (Nat.le_of_not_lt hi)]
    · exact hkept.keeps 0 s.depth_pos
    · intro i name hne
      obtain ⟨t, a, ht, howns⟩ := hbalanced.exists_assign hpop hdone.isBlock hne
      exact ⟨t, a, ht, howns.unbound⟩
    · intro hassign
      refine ext_binding? hdepth fun i name => Classical.byContradiction fun hne => ?_
      obtain ⟨t, a, ht, -⟩ := hbalanced.exists_assign hpop hdone.isBlock hne
      exact hassign name a (mem_of_mem_history ht)

/-- A block that assigns to names of both frames around it, shadows one of them for a while, and is
ended by an unknown name. -/
theorem block_unwinds_unknown_name :
    let s : Scopes Nat := ((empty.define "a" 1).push).define "b" 2
    let body : List (Step Nat) :=
      [.assign "b" 3, .define "a" 4, .block [.assign "a" 5, .push], .pop, .get "c", .assign "c" 6]
    let done : List (Step Nat) :=
      [.assign "b" 3, .define "a" 4, .push, .assign "a" 5, .push, .pop, .pop, .get "c"]
    Performs body done ∧ s.Balanced done ∧
      ∃ own left, Step.pop.run (s.push.after done) = (left, .ok (.popped own)) ∧
        left.depth = s.depth ∧
        ∀ i name, 0 < i → (left.binding? i name).isSome = (s.binding? i name).isSome := by
  intro s body done
  have hdone : Performs body done :=
    .step rfl (.step rfl (.block (.step rfl (.step rfl (.leave []))) (.step rfl
      (.step rfl (.leave [.assign "c" 6])))))
  have hbalanced : s.Balanced done := by
    refine ⟨fun t ht => ?_, rfl⟩
    simp only [done, history, List.mem_cons, Prod.mk.injEq, reduceCtorEq, and_false, and_true,
      false_or, List.not_mem_nil, or_false] at ht
    rcases ht with rfl | rfl <;> decide
  obtain ⟨own, left, hleft, hdepth, hnames, -⟩ := (block_unwinds s body).2 done hdone hbalanced
  exact ⟨hdone, hbalanced, own, left, hleft, hdepth, hnames⟩

end Scriptlet.Scopes
