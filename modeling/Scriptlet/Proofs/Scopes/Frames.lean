import Scriptlet.Proofs.Scopes.Writing
import Scriptlet.Scopes.Step

/-!
# Scopes, frame by frame

The frames of scopes are numbered from the global one, which has number 0, inwards, and scopes are
known as soon as it is known what each frame binds (`Scopes.binding?`, `Scopes.ext_binding?`). Every
operation is told by what it does to these bindings. Entering and leaving adds or takes away the last
frame, a definition writes to the last frame, and an assignment to the frame that owns the name
(`Scopes.Owns`), of which there is always exactly one.

Owners depend on the bindings of their own name only, so assignments to different names do not get
in each other's way (`Scopes.assign_comm`). All of this is put together in
`Scopes.updates_and_lookups`.
-/

namespace Scriptlet

namespace Frame

variable {α : Type}

/-! ## Frames from their entries -/

/-- Binds names one after another. -/
def insertAll (f : Frame α) (entries : List (String × α)) : Frame α :=
  entries.foldl (fun f (name, a) => f.insert name a) f

theorem place_eq_append {name : String} (a : α) {l : List (String × α)}
    (h : ∀ e ∈ l, e.1 < name) : place name a l = l ++ [(name, a)] := by
  induction l with
  | nil => rfl
  | cons entry rest ih =>
    have hlt : entry.1 < name := h entry List.mem_cons_self
    have hnot : ¬name < entry.1 := fun hlt' => String.lt_irrefl _ (String.lt_trans hlt hlt')
    have hne : name ≠ entry.1 := fun heq => String.lt_irrefl _ (heq ▸ hlt)
    simp [place, hnot, hne, ih fun e he => h e (List.mem_cons_of_mem _ he)]

theorem entries_insertAll {f : Frame α} {entries : List (String × α)}
    (h : (f.entries ++ entries).Pairwise fun a b => a.1 < b.1) :
    (f.insertAll entries).entries = f.entries ++ entries := by
  induction entries generalizing f with
  | nil => simp [insertAll]
  | cons entry rest ih =>
    have hbefore : ∀ e ∈ f.entries, e.1 < entry.1 := fun e he =>
      (List.pairwise_append.1 h).2.2 e he entry List.mem_cons_self
    have hinsert : (f.insert entry.1 entry.2).entries = f.entries ++ [entry] :=
      place_eq_append entry.2 hbefore
    rw [insertAll, List.foldl_cons, ← insertAll, ih (by simpa [hinsert] using h), hinsert]
    simp

/-- A frame is what its entries make of an empty one. -/
theorem insertAll_entries (f : Frame α) : empty.insertAll f.entries = f := by
  have hentries : (empty.insertAll f.entries).entries = f.entries :=
    entries_insertAll (by simpa [empty] using f.sorted)
  cases f
  cases hf : empty.insertAll _ with
  | mk entries sorted =>
    rw [hf] at hentries
    cases hentries
    rfl

end Frame

namespace Scopes

variable {α : Type} {s t : Scopes α} {name : String}

/-! ## Bindings -/

/-- What the frame of the given number binds a name to. -/
def binding? (s : Scopes α) (i : Nat) (name : String) : Option α := s.frames[i]?.bind (·.get? name)

theorem binding?_eq_none_of_le {i : Nat} (h : s.depth ≤ i) (name : String) :
    s.binding? i name = none := by
  rw [binding?, List.getElem?_eq_none (by simpa using h), Option.bind_none]

theorem eq_of_frames_eq (h : s.frames = t.frames) : s = t := by
  obtain ⟨hglobals, hinner⟩ := List.cons.inj h
  cases s
  cases t
  cases hglobals
  cases List.reverse_inj.1 hinner
  rfl

/-- Scopes with equally many frames that bind the same are the same. -/
theorem ext_binding? (hdepth : s.depth = t.depth)
    (h : ∀ i name, s.binding? i name = t.binding? i name) : s = t := by
  refine eq_of_frames_eq (List.ext_getElem (by simpa using hdepth) fun i hi hi' => ?_)
  refine Frame.ext_get? fun name => ?_
  have hbinding := h i name
  rwa [binding?, binding?, List.getElem?_eq_getElem hi, List.getElem?_eq_getElem hi'] at hbinding

/-! ## Entering and leaving -/

theorem frames_push (s : Scopes α) : s.push.frames = s.frames ++ [.empty] := by
  simp [frames, push]

/-- A new frame binds nothing, so entering it shows in no binding. -/
@[simp] theorem binding?_push (s : Scopes α) (i : Nat) (name : String) :
    s.push.binding? i name = s.binding? i name := by
  rw [binding?, binding?, frames_push, List.getElem?_append]
  split
  · rfl
  · next h =>
    rw [List.getElem?_eq_none (Nat.le_of_not_lt h), List.getElem?_singleton]
    split <;> rfl

/-- Leaving takes the last frame away. -/
theorem pop_eq_ok_iff {f : Frame α} : s.pop = .ok (f, t) ↔ s.frames = t.frames ++ [f] := by
  obtain ⟨globals, inner⟩ := s
  cases inner with
  | nil => simp [pop, frames]
  | cons g rest =>
    constructor
    · intro h
      cases h
      simp [frames]
    · intro h
      have hframes : (⟨globals, rest⟩ : Scopes α).frames ++ [g] = t.frames ++ [f] := by
        rw [← h]
        simp [frames]
      obtain ⟨hrest, hlast⟩ := List.append_inj' hframes rfl
      obtain rfl := eq_of_frames_eq hrest
      cases hlast
      rfl

theorem depth_of_pop {f : Frame α} (h : s.pop = .ok (f, t)) : s.depth = t.depth + 1 := by
  simpa using congrArg List.length (pop_eq_ok_iff.1 h)

theorem binding?_of_pop {f : Frame α} (h : s.pop = .ok (f, t)) {i : Nat} (hi : i < t.depth)
    (name : String) : t.binding? i name = s.binding? i name := by
  rw [binding?, binding?, pop_eq_ok_iff.1 h, List.getElem?_append_left (by simpa using hi)]

/-- Leaving fails at the global frame and nowhere else. -/
theorem pop_eq_error_iff {e : ScopeError} : s.pop = .error e ↔ s.depth = 1 ∧ e = .onlyGlobal := by
  obtain ⟨globals, inner⟩ := s
  cases inner <;> simp [pop, depth, eq_comm]

theorem exists_pop (h : 1 < s.depth) : ∃ f t, s.pop = .ok (f, t) := by
  cases hpop : s.pop with
  | ok left => exact ⟨left.1, left.2, rfl⟩
  | error e =>
    have hdepth := (pop_eq_error_iff.1 hpop).1
    omega

/-! ## Writing -/

theorem modify_length_append {β : Type} (outer further : List β) (f : β) (g : β → β) :
    (outer ++ f :: further).modify outer.length g = outer ++ g f :: further := by
  induction outer with
  | nil => rfl
  | cons head outer ih =>
    rw [List.cons_append, List.length_cons, List.modify_succ_cons, ih, List.cons_append]

theorem binding?_of_frames_modify {i : Nat} {a : α}
    (h : t.frames = s.frames.modify i (·.insert name a)) (hi : i < s.depth) (j : Nat) (m : String) :
    t.binding? j m = if j = i ∧ m = name then some a else s.binding? j m := by
  rw [binding?, binding?, h, List.getElem?_modify]
  by_cases hj : i = j
  · subst hj
    rw [List.getElem?_eq_getElem (by simpa using hi)]
    simp
  · simp [hj, Ne.symm hj]

theorem frames_define (s : Scopes α) (name : String) (a : α) :
    (s.define name a).frames = s.frames.modify (s.depth - 1) (·.insert name a) := by
  obtain ⟨globals, inner⟩ := s
  cases inner with
  | nil => rfl
  | cons f rest =>
    have hindex : (globals :: rest.reverse).length = rest.length + 1 := by simp
    have hwritten := modify_length_append (globals :: rest.reverse) [] f (·.insert name a)
    rw [hindex] at hwritten
    simpa [define, frames, depth] using hwritten.symm

@[simp] theorem depth_define (s : Scopes α) (name : String) (a : α) :
    (s.define name a).depth = s.depth := by
  rw [← length_frames, frames_define, List.length_modify, length_frames]

theorem depth_pos (s : Scopes α) : 0 < s.depth := Nat.succ_pos _

/-- A definition shows in the last frame at its own name. -/
theorem binding?_define (s : Scopes α) (name : String) (a : α) (i : Nat) (m : String) :
    (s.define name a).binding? i m =
      if i + 1 = s.depth ∧ m = name then some a else s.binding? i m := by
  have hpos := s.depth_pos
  rw [binding?_of_frames_modify (s.frames_define name a) (by omega)]
  have hlast : i = s.depth - 1 ↔ i + 1 = s.depth := by omega
  simp only [hlast]

/-- The frame that an assignment to the name writes to: the innermost one that binds it, or the
global one if none does. -/
structure Owns (s : Scopes α) (name : String) (i : Nat) : Prop where
  unbound : ∀ j, i < j → s.binding? j name = none
  bound : i ≠ 0 → (s.binding? i name).isSome = true

namespace Owns

variable {i j : Nat}

theorem lt (h : s.Owns name i) : i < s.depth := by
  refine Nat.lt_of_not_le fun hle => ?_
  have hpos := s.depth_pos
  have hbound := h.bound (by omega)
  rw [binding?_eq_none_of_le hle] at hbound
  cases hbound

theorem le (h : s.Owns name i) (h' : s.Owns name j) : j ≤ i := by
  refine Nat.le_of_not_lt fun hlt => ?_
  have hbound := h'.bound (by omega)
  rw [h.unbound j hlt] at hbound
  cases hbound

theorem unique (h : s.Owns name i) (h' : s.Owns name j) : i = j :=
  Nat.le_antisymm (h'.le h) (h.le h')

theorem congr (hbindings : ∀ j, t.binding? j name = s.binding? j name) (h : s.Owns name i) :
    t.Owns name i :=
  ⟨fun j hj => (hbindings j).trans (h.unbound j hj), fun hi => by rw [hbindings]; exact h.bound hi⟩

theorem of_frames {outer further : List (Frame α)} {f : Frame α}
    (h : s.frames = outer ++ f :: further) (hfurther : ∀ g ∈ further, g.get? name = none)
    (hf : outer ≠ [] → (f.get? name).isSome = true) : s.Owns name outer.length := by
  constructor
  · intro j hj
    obtain ⟨k, rfl⟩ := Nat.exists_eq_add_of_lt hj
    have hindex : outer.length + k + 1 - outer.length = k + 1 := by omega
    rw [binding?, h, List.getElem?_append_right (by omega), hindex, List.getElem?_cons_succ]
    cases hget : further[k]? with
    | none => rfl
    | some g => exact hfurther g (List.mem_of_getElem? hget)
  · intro hne
    rw [binding?, h, List.getElem?_append_right (Nat.le_refl _), Nat.sub_self]
    exact hf fun hnil => hne (congrArg List.length hnil)

end Owns

/-- An assignment writes to one frame; the frames further in do not bind the name, and the frame
itself does, unless it is the global one. -/
theorem exists_append_of_assign (s : Scopes α) (name : String) (a : α) :
    ∃ outer f further, s.frames = outer ++ f :: further ∧
      (s.assign name a).frames = outer ++ f.insert name a :: further ∧
      (∀ g ∈ further, g.get? name = none) ∧ (outer ≠ [] → (f.get? name).isSome = true) := by
  unfold assign
  split
  · next inner h =>
    obtain ⟨before, f, after, hinner, rfl, hbefore, hf⟩ := exists_of_assignInner h
    refine ⟨s.globals :: after.reverse, f, before.reverse, ?_, ?_, ?_, fun _ => hf⟩
    · simp [frames, hinner]
    · simp [frames]
    · simpa using hbefore
  · next h =>
    have hinner := List.findSome?_eq_none_iff.1 (findSome?_of_assignInner_eq_none h)
    refine ⟨[], s.globals, s.inner.reverse, rfl, rfl, ?_, fun hne => absurd rfl hne⟩
    simpa using hinner

/-- An assignment writes to the owner of its name and leaves the other frames as they are. -/
theorem exists_owns_frames_assign (s : Scopes α) (name : String) (a : α) :
    ∃ i, s.Owns name i ∧ (s.assign name a).frames = s.frames.modify i (·.insert name a) := by
  obtain ⟨outer, f, further, hframes, hassign, hfurther, hf⟩ := s.exists_append_of_assign name a
  refine ⟨outer.length, .of_frames hframes hfurther hf, ?_⟩
  rw [hassign, hframes, modify_length_append]

theorem Owns.binding?_assign {i : Nat} (h : s.Owns name i) (a : α) (j : Nat) (m : String) :
    (s.assign name a).binding? j m = if j = i ∧ m = name then some a else s.binding? j m := by
  obtain ⟨k, hk, hframes⟩ := s.exists_owns_frames_assign name a
  rw [h.unique hk]
  exact binding?_of_frames_modify hframes hk.lt j m

/-- Assignments to different names can be made in either order. -/
theorem assign_comm (s : Scopes α) {n m : String} (h : n ≠ m) (a b : α) :
    (s.assign n a).assign m b = (s.assign m b).assign n a := by
  obtain ⟨i, hi, -⟩ := s.exists_owns_frames_assign n a
  obtain ⟨j, hj, -⟩ := s.exists_owns_frames_assign m b
  -- Neither assignment moves the owner of the other's name.
  have hi' : (s.assign m b).Owns n i := hi.congr fun k => by
    rw [hj.binding?_assign, if_neg fun heq => h heq.2]
  have hj' : (s.assign n a).Owns m j := hj.congr fun k => by
    rw [hi.binding?_assign, if_neg fun heq => h heq.2.symm]
  refine ext_binding? (by simp) fun k l => ?_
  rw [hj'.binding?_assign, hi.binding?_assign, hi'.binding?_assign, hj.binding?_assign]
  by_cases hn : l = n
  · simp [hn, h]
  · simp [hn]

/-! ## Looking up -/

theorem get?_define (s : Scopes α) (name m : String) (a : α) :
    (s.define name a).get? m = if m = name then some a else s.get? m := by
  unfold define
  split
  · next h => by_cases hm : m = name <;> simp [get?, h, hm]
  · next f rest h => by_cases hm : m = name <;> simp [get?, h, hm, List.findSome?_cons]

/-! ## Histories -/

/-- The scopes after operations, which go on when one of them fails. -/
def after (s : Scopes α) : List (Step α) → Scopes α
  | [] => s
  | step :: rest => (step.run s).1.after rest

theorem after_append (s : Scopes α) (steps rest : List (Step α)) :
    s.after (steps ++ rest) = (s.after steps).after rest := by
  induction steps generalizing s with
  | nil => rfl
  | cons step steps ih => exact ih _

/-- The definitions of names with their values. -/
def definitions (entries : List (String × α)) : List (Step α) :=
  entries.map fun (name, a) => .define name a

/-- Definitions one after another all go to the last frame. -/
theorem frames_after_definitions (s : Scopes α) (entries : List (String × α)) :
    (s.after (definitions entries)).frames =
      s.frames.modify (s.depth - 1) (·.insertAll entries) := by
  induction entries generalizing s with
  | nil => exact (List.modify_id _ _).symm
  | cons entry entries ih =>
    refine (ih (s.define entry.1 entry.2)).trans ?_
    rw [depth_define, frames_define, List.modify_modify_eq]
    rfl

theorem frames_push_after_definitions (s : Scopes α) (entries : List (String × α)) :
    (s.push.after (definitions entries)).frames = s.frames ++ [Frame.empty.insertAll entries] := by
  rw [frames_after_definitions, frames_push, depth_push, Nat.add_sub_cancel, ← length_frames,
    modify_length_append]

/-- All scopes come about: the frames are entered one by one, and their names defined. -/
theorem exists_after_empty (s : Scopes α) : ∃ steps, (empty : Scopes α).after steps = s := by
  obtain ⟨globals, inner⟩ := s
  induction inner with
  | nil =>
    refine ⟨definitions globals.entries, eq_of_frames_eq ?_⟩
    rw [frames_after_definitions]
    exact congrArg (fun f => [f]) globals.insertAll_entries
  | cons f rest ih =>
    obtain ⟨steps, hsteps⟩ := ih
    refine ⟨steps ++ .push :: definitions f.entries, eq_of_frames_eq ?_⟩
    rw [after_append, hsteps]
    refine (frames_push_after_definitions ⟨globals, rest⟩ f.entries).trans ?_
    rw [Frame.insertAll_entries]
    simp [frames]

theorem run_pop {f : Frame α} (h : s.pop = .ok (f, t)) : Step.pop.run s = (t, .ok (.popped f)) := by
  simp only [Step.run, h]

theorem run_pop_eq_error_iff {e : ScopeError} :
    (Step.pop.run s).2 = .error e ↔ s.depth = 1 ∧ e = .onlyGlobal := by
  rw [← pop_eq_error_iff]
  simp only [Step.run]
  cases s.pop <;> simp

theorem run_pop_of_depth_eq_one (h : s.depth = 1) : (Step.pop.run s).1 = s := by
  simp only [Step.run, pop_eq_error_iff.2 ⟨h, rfl⟩]

/-- **Updates and look-ups.** Scopes are what some operations make of empty ones. There is always a
frame, and leaving fails exactly where there is one only, and then changes nothing. An assignment
or a definition shows at its own name and at no other; it writes to one frame, a definition to the
last and an assignment to the owner of the name. Assignments to different names commute, and what is
defined in a new frame is gone with it. -/
theorem updates_and_lookups (s : Scopes α) :
    (∃ steps, (empty : Scopes α).after steps = s) ∧
      1 ≤ s.depth ∧ ((∃ e, (Step.pop.run s).2 = .error e) ↔ s.depth = 1) ∧
      (s.depth = 1 → (Step.pop.run s).1.frames = s.frames) ∧
      (∀ n a, (s.assign n a).get? n = some a ∧ (s.define n a).get? n = some a ∧
        ∀ m, m ≠ n → (s.assign n a).get? m = s.get? m ∧ (s.define n a).get? m = s.get? m) ∧
      (∀ n a, (∃ i, s.Owns n i ∧ (s.assign n a).frames = s.frames.modify i (·.insert n a)) ∧
        (s.define n a).frames = s.frames.modify (s.depth - 1) (·.insert n a)) ∧
      (∀ n m a b, n ≠ m → (s.assign n a).assign m b = (s.assign m b).assign n a) ∧
      ∀ entries, ∃ f, (s.push.after (definitions entries)).pop = .ok (f, s) := by
  refine ⟨s.exists_after_empty, s.depth_pos, ?_, ?_, ?_, ?_, ?_, ?_⟩
  · constructor
    · rintro ⟨e, he⟩
      exact (run_pop_eq_error_iff.1 he).1
    · intro hdepth
      exact ⟨.onlyGlobal, run_pop_eq_error_iff.2 ⟨hdepth, rfl⟩⟩
  · intro hdepth
    rw [run_pop_of_depth_eq_one hdepth]
  · intro n a
    refine ⟨by simp [get?_assign], by simp [get?_define], fun m hm => ?_⟩
    simp [get?_assign, get?_define, hm]
  · intro n a
    exact ⟨s.exists_owns_frames_assign n a, s.frames_define n a⟩
  · intro n m a b hne
    exact s.assign_comm hne a b
  · intro entries
    exact ⟨_, pop_eq_ok_iff.2 (s.frames_push_after_definitions entries)⟩

/-- A name that is bound in both frames: its owner is the inner one, and a second name goes to the
global frame whichever comes first. -/
theorem updates_and_lookups_shadowed :
    let s : Scopes Nat := ((empty.define "a" 1).push).define "a" 2
    (s.assign "a" 3).frames = s.frames.modify 1 (·.insert "a" 3) ∧
      (s.assign "a" 3).get? "a" = some 3 ∧
      (s.assign "a" 3).assign "b" 4 = (s.assign "b" 4).assign "a" 3 ∧
      ∃ f, (s.push.after [.define "a" 5, .define "b" 6]).pop = .ok (f, s) := by
  intro s
  obtain ⟨-, -, -, -, hlookups, hframes, hcomm, hleaves⟩ := updates_and_lookups s
  obtain ⟨⟨i, howns, hassign⟩, -⟩ := hframes "a" 3
  have hinner : s.Owns "a" 1 := ⟨fun j hj => binding?_eq_none_of_le hj "a", fun _ => rfl⟩
  obtain rfl := howns.unique hinner
  exact ⟨hassign, (hlookups "a" 3).1, hcomm "a" "b" 3 4 (by decide), hleaves [("a", 5), ("b", 6)]⟩

end Scopes

end Scriptlet
