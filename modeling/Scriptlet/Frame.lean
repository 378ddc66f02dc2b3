/-!
# Frames

A frame binds names. Its entries are kept in the order of their names, each name once, so a frame is
determined by its look-ups (`ext_get?`) and is listed without sorting.
-/

namespace Scriptlet

/-- Names with what they are bound to, in the order of the names. -/
structure Frame (α : Type) where
  entries : List (String × α)
  sorted : entries.Pairwise fun a b => a.1 < b.1

namespace Frame

variable {α : Type}

/-- A frame without names. -/
def empty : Frame α := ⟨[], .nil⟩

/-- What the first entry of a name holds. -/
def search (name : String) : List (String × α) → Option α
  | [] => none
  | entry :: rest => if name = entry.1 then some entry.2 else search name rest

/-- What a name is bound to. -/
def get? (f : Frame α) (name : String) : Option α := search name f.entries

/-- The name is bound. -/
def contains (f : Frame α) (name : String) : Bool := (f.get? name).isSome

/-- The bound names in order. -/
def names (f : Frame α) : List String := f.entries.map (·.1)

/-- Puts an entry in its place, over an older one of the same name. -/
def place (name : String) (a : α) : List (String × α) → List (String × α)
  | [] => [(name, a)]
  | entry :: rest =>
      if name < entry.1 then (name, a) :: entry :: rest
      else if name = entry.1 then (name, a) :: rest
      else entry :: place name a rest

theorem mem_place {name : String} {a : α} {l : List (String × α)} {e : String × α}
    (h : e ∈ place name a l) : e = (name, a) ∨ e ∈ l := by
  induction l with
  | nil => simpa [place] using h
  | cons entry rest ih =>
    simp only [place] at h
    split at h
    · simpa using h
    · split at h
      · rcases List.mem_cons.1 h with h | h
        · exact .inl h
        · exact .inr (List.mem_cons_of_mem _ h)
      · rcases List.mem_cons.1 h with h | h
        · exact .inr (h ▸ List.mem_cons_self)
        · exact (ih h).imp id (List.mem_cons_of_mem _)

theorem lt_of_not_lt_of_ne {a b : String} (h : ¬a < b) (hne : a ≠ b) : b < a := by
  exact Std.lt_of_le_of_ne (Std.not_lt.1 h) hne.symm

theorem sorted_place (name : String) (a : α) {l : List (String × α)}
    (h : l.Pairwise fun x y => x.1 < y.1) :
    (place name a l).Pairwise fun x y => x.1 < y.1 := by
  induction l with
  | nil => simp [place]
  | cons entry rest ih =>
    obtain ⟨hhead, hrest⟩ := List.pairwise_cons.1 h
    simp only [place]
    split
    · rename_i hlt
      refine List.pairwise_cons.2 ⟨fun e he => ?_, h⟩
      rcases List.mem_cons.1 he with rfl | he
      · exact hlt
      · exact String.lt_trans hlt (hhead e he)
    · split
      · rename_i heq
        exact List.pairwise_cons.2 ⟨fun e he => heq ▸ hhead e he, hrest⟩
      · rename_i hlt hne
        refine List.pairwise_cons.2 ⟨fun e he => ?_, ih hrest⟩
        rcases mem_place he with rfl | he
        · exact lt_of_not_lt_of_ne hlt hne
        · exact hhead e he

/-- Binds a name, over an older binding. -/
def insert (f : Frame α) (name : String) (a : α) : Frame α :=
  ⟨place name a f.entries, sorted_place name a f.sorted⟩

theorem search_place (name m : String) (a : α) (l : List (String × α)) :
    search m (place name a l) = if m = name then some a else search m l := by
  induction l with
  | nil => rfl
  | cons entry rest ih =>
    simp only [place]
    split
    · rfl
    · split
      · rename_i heq
        by_cases h : m = name <;> simp [search, ← heq, h]
      · rename_i hne
        by_cases h : m = name
        · subst h; simp [search, ih, hne]
        · simp [search, ih, h]

@[simp] theorem get?_empty (m : String) : (empty : Frame α).get? m = none := rfl

/-- A binding shows at its own name and leaves the other names alone. -/
@[simp] theorem get?_insert (f : Frame α) (name m : String) (a : α) :
    (f.insert name a).get? m = if m = name then some a else f.get? m :=
  search_place name m a f.entries

theorem search_eq_none {name : String} {l : List (String × α)} (h : ∀ e ∈ l, name < e.1) :
    search name l = none := by
  induction l with
  | nil => rfl
  | cons entry rest ih =>
    have hne : name ≠ entry.1 := fun heq =>
      String.lt_irrefl _ (heq ▸ h entry List.mem_cons_self)
    simp [search, hne, ih fun e he => h e (List.mem_cons_of_mem _ he)]

theorem eq_of_search_eq {l m : List (String × α)} (hl : l.Pairwise fun x y => x.1 < y.1)
    (hm : m.Pairwise fun x y => x.1 < y.1) (h : ∀ name, search name l = search name m) :
    l = m := by
  induction l generalizing m with
  | nil =>
    cases m with
    | nil => rfl
    | cons e r => simpa [search] using h e.1
  | cons e r ih =>
    obtain ⟨he, hr⟩ := List.pairwise_cons.1 hl
    cases m with
    | nil => simpa [search] using h e.1
    | cons e' r' =>
      obtain ⟨he', hr'⟩ := List.pairwise_cons.1 hm
      have above {x y : String × α} {t : List (String × α)} (hxy : x.1 < y.1)
          (ht : ∀ z ∈ t, y.1 < z.1) : search x.1 (y :: t) = none :=
        search_eq_none fun z hz => (List.mem_cons.1 hz).elim (· ▸ hxy)
          fun hz => String.lt_trans hxy (ht z hz)
      have hname : e.1 = e'.1 := by
        by_cases hlt : e.1 < e'.1
        · have hsome := h e.1
          rw [above hlt he'] at hsome
          simp [search] at hsome
        · by_cases hne : e.1 = e'.1
          · exact hne
          · have hsome := h e'.1
            rw [above (lt_of_not_lt_of_ne hlt hne) he] at hsome
            simp [search] at hsome
      have hvalue : e.2 = e'.2 := by simpa [search, hname] using h e.1
      have hrest : r = r' := ih hr hr' fun name => by
        by_cases hn : name = e.1
        · subst hn
          rw [search_eq_none he, search_eq_none (hname ▸ he')]
        · have := h name
          have hn' : name ≠ e'.1 := hname ▸ hn
          simpa [search, hn, hn'] using this
      rw [hrest, show e = e' from Prod.ext hname hvalue]

/-- Frames that agree on every name are one frame. -/
theorem ext_get? {f g : Frame α} (h : ∀ name, f.get? name = g.get? name) : f = g := by
  obtain ⟨l, hl⟩ := f
  obtain ⟨m, hm⟩ := g
  have : l = m := eq_of_search_eq hl hm h
  subst this
  rfl

end Frame

end Scriptlet
