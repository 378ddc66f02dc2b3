import Scriptlet.Scopes

/-!
# Where assignments write

An assignment writes to the nearest frame that binds its name, and to the global frame if there is
none. Seen through look-ups the place does not matter: the name has the new value and every other
name has the value it had (`Scopes.get?_assign`). Frame by frame, no other name is touched and no
frame comes or goes (`Scopes.map_get?_frames_assign`, `Scopes.depth_assign`).
-/

namespace Scriptlet.Scopes

variable {α : Type} {name : String} {a : α} {inner inner' : List (Frame α)}

/-! ## The inner frames -/

/-- What an assignment to an inner frame does: it passes the frames that do not bind the name and
writes to the first that does. -/
theorem exists_of_assignInner (h : assignInner name a inner = some inner') :
    ∃ before f after, inner = before ++ f :: after ∧ inner' = before ++ f.insert name a :: after ∧
      (∀ g ∈ before, g.get? name = none) ∧ (f.get? name).isSome = true := by
  induction inner generalizing inner' with
  | nil => cases h
  | cons f rest ih =>
    simp only [assignInner] at h
    split at h
    · next hbound =>
      cases h
      exact ⟨[], f, rest, rfl, rfl, by simp, hbound⟩
    · next hbound =>
      obtain ⟨rest', hrest, rfl⟩ := Option.map_eq_some_iff.1 h
      obtain ⟨before, g, after, rfl, rfl, hbefore, hg⟩ := ih hrest
      refine ⟨f :: before, g, after, rfl, rfl, List.forall_mem_cons.2 ⟨?_, hbefore⟩, hg⟩
      simpa [Frame.contains] using hbound

theorem findSome?_of_assignInner_eq_none (h : assignInner name a inner = none) :
    inner.findSome? (·.get? name) = none := by
  induction inner with
  | nil => rfl
  | cons f rest ih =>
    simp only [assignInner] at h
    split at h
    · cases h
    · next hbound =>
      have hnone : f.get? name = none := by simpa [Frame.contains] using hbound
      rw [List.findSome?_cons, hnone]
      exact ih (Option.map_eq_none_iff.1 h)

/-! ## All frames -/

/-- After an assignment the name has the value, and every other name what it had. -/
theorem get?_assign (s : Scopes α) (name m : String) (a : α) :
    (s.assign name a).get? m = if m = name then some a else s.get? m := by
  unfold assign
  split
  · next inner h =>
    obtain ⟨before, f, after, hinner, rfl, hbefore, -⟩ := exists_of_assignInner h
    have hpassed : before.findSome? (·.get? name) = none :=
      List.findSome?_eq_none_iff.2 hbefore
    simp only [get?, hinner, List.findSome?_append, List.findSome?_cons, Frame.get?_insert]
    by_cases hm : m = name
    · subst hm
      simp [hpassed]
    · simp [hm]
  · next h =>
    simp only [get?, defineGlobal, Frame.get?_insert]
    by_cases hm : m = name
    · subst hm
      simp [findSome?_of_assignInner_eq_none h]
    · simp [hm]

@[simp] theorem depth_assign (s : Scopes α) (name : String) (a : α) :
    (s.assign name a).depth = s.depth := by
  unfold assign
  split
  · next inner h =>
    obtain ⟨before, f, after, hinner, rfl, -⟩ := exists_of_assignInner h
    simp only [depth, hinner, List.length_append, List.length_cons]
  · rfl

/-- An assignment leaves every other name alone in every frame. -/
theorem map_get?_frames_assign (s : Scopes α) {name m : String} (h : m ≠ name) (a : α) :
    (s.assign name a).frames.map (·.get? m) = s.frames.map (·.get? m) := by
  unfold assign
  split
  · next inner hassign =>
    obtain ⟨before, f, after, hinner, rfl, -⟩ := exists_of_assignInner hassign
    simp [frames, hinner, h]
  · simp [frames, defineGlobal, h]

end Scriptlet.Scopes
