import Scriptlet.Batch

/-!
# Files that were written

A file that was written is read back (`Files.open?_of_write`). Writing adds a file or replaces one,
so what was a directory stays one (`Files.isDirectory_put`), and a path that could be followed leads
to the same place afterwards (`Files.follow_put`). A text without carriage returns also survives the
decoding of its bytes (`Batch.readText_of_write`).

Paths in plain form stay as they are when their last name goes on (`Files.plainPath_append`), so a
path that a program shows can be given to it.
-/

namespace Scriptlet

namespace Files

/-! ## Writing -/

section Put

variable (files : Files) (target : List String) (bytes : ByteArray)

theorem isDirectory_put {place : List String} (h : files.isDirectory place = true) :
    (files.put target bytes).isDirectory place = true := by
  simp only [isDirectory, Bool.or_eq_true, List.any_eq_true] at h ⊢
  rcases h with h | ⟨entry, hmem, hbelow⟩
  · exact .inl h
  refine .inr ?_
  by_cases hplace : entry.1 = target
  · -- The file that was replaced is below the same directories as the new one.
    subst hplace
    exact ⟨(entry.1, bytes), by simp [put], hbelow⟩
  · exact ⟨entry, by simp [put, hmem, hplace], hbelow⟩

theorem content?_put : (files.put target bytes).content? target = some bytes := by
  have hfind : (files.put target bytes).entries.find? (·.1 == target) = some (target, bytes) := by
    simp only [put]
    rw [List.find?_append, List.find?_eq_none.2]
    · simp
    · intro entry hmem
      simpa using (List.mem_filter.1 hmem).2
  rw [content?, hfind]

theorem follow_put {path : String} {place destination : List String} {names : List String}
    (h : files.follow path place names = .ok destination) :
    (files.put target bytes).follow path place names = .ok destination := by
  induction names generalizing place with
  | nil => exact h
  | cons name rest ih =>
    rw [follow] at h ⊢
    split at h
    · next hdirectory =>
      rw [if_pos (isDirectory_put files target bytes hdirectory)]
      split at h
      · cases h
      · next hlength => rw [if_neg hlength, ih h]
    · split at h <;> cases h

theorem resolve_put {path : String} {destination : List String}
    (h : files.resolve path = .ok destination) :
    (files.put target bytes).resolve path = .ok destination := by
  unfold resolve at h ⊢
  split at h
  · cases h
  · next hzero =>
    split at h
    · cases h
    · next hempty =>
      split at h
      · cases h
      · next hlength =>
        rw [if_neg hzero, if_neg hempty, if_neg hlength]
        exact follow_put files target bytes h

end Put

/-- A file that was written is read back. -/
theorem open?_of_write {files files' : Files} {path text : String}
    (h : files.write path text = .ok files') : files'.open? path = .ok text.toUTF8 := by
  unfold write at h
  split at h
  · cases h
  · next place hresolve =>
    split at h
    · cases h
    · obtain rfl := Except.ok.inj h
      simp only [open?, resolve_put files place text.toUTF8 hresolve, content?_put]

/-- Whether a file can be written does not depend on the text. -/
theorem exists_write {files : Files} {path text : String}
    (h : (files.write path text).isOk = true) (other : String) :
    ∃ files', files.write path other = .ok files' := by
  unfold write at h ⊢
  split at h
  · cases h
  · split at h
    · cases h
    · next hdirectory => exact ⟨_, if_neg hdirectory⟩

/-! ## Paths in plain form -/

/-- A name that a path in plain form can have. -/
structure PlainName (name : String) : Prop where
  slash : '/' ∉ name.toList
  ne_empty : name ≠ ""
  ne_dot : name ≠ "."

theorem slash_notMem_of_mem_splitOn {cs name : List Char} (h : name ∈ cs.splitOn '/') :
    '/' ∉ name := by
  induction cs generalizing name with
  | nil => simp_all
  | cons c cs ih =>
    rw [List.splitOn_cons_eq_if_modifyHead] at h
    split at h
    · rcases List.mem_cons.1 h with rfl | h
      · simp
      · exact ih h
    · next hc =>
      cases hsplit : cs.splitOn '/' with
      | nil => exact absurd hsplit (List.splitOn_ne_nil _ _)
      | cons first rest =>
        rw [hsplit] at h ih
        rcases List.mem_cons.1 h with rfl | h
        · have hfirst := ih List.mem_cons_self
          intro hmem
          rcases List.mem_cons.1 hmem with heq | hmem
          · exact hc (beq_iff_eq.2 heq.symm)
          · exact hfirst hmem
        · exact ih (List.mem_cons_of_mem _ h)

theorem split_intercalate {names : List String} (h : ∀ name ∈ names, PlainName name)
    (hne : names ≠ []) : split ("/".intercalate names) = names := by
  have hnames : ∀ cs ∈ names.map String.toList, '/' ∉ cs := by
    intro cs hcs
    obtain ⟨name, hname, rfl⟩ := List.mem_map.1 hcs
    exact (h name hname).slash
  rw [split, String.toList_intercalate, show "/".toList = ['/'] from rfl,
    List.splitOn_intercalate '/' hnames (by simpa using hne), List.map_map]
  simp

theorem toList_intercalate_cons {names : List String} (h : ∀ name ∈ names, PlainName name)
    (hne : names ≠ []) : ∃ c cs, ("/".intercalate names).toList = c :: cs ∧ c ≠ '/' := by
  cases names with
  | nil => exact absurd rfl hne
  | cons name rest =>
    have hname := h name List.mem_cons_self
    have hslash := hname.slash
    cases htext : name.toList with
    | nil => exact absurd (String.toList_eq_nil_iff.1 htext) hname.ne_empty
    | cons c cs =>
      have hc : c ≠ '/' := by
        rintro rfl
        exact hslash (htext ▸ List.mem_cons_self)
      rw [String.toList_intercalate, List.map_cons, htext, List.intercalate_cons_cons_left]
      exact ⟨c, _, rfl, hc⟩

/-- As many slashes as given. -/
def slashes (k : Nat) : String := String.ofList (List.replicate k '/')

theorem split_slashes (k : Nat) (path : String) :
    split (slashes k ++ path) = List.replicate k "" ++ split path := by
  have htext : (slashes k ++ path).toList = List.replicate k '/' ++ path.toList := by simp [slashes]
  rw [split, htext, split]
  clear htext
  induction k with
  | zero => rfl
  | succ k ih =>
    rw [List.replicate_succ, List.cons_append, List.splitOn_cons_eq_if_modifyHead,
      if_pos (beq_iff_eq.2 rfl), List.map_cons, ih]
    rfl

/-- A path of plain names keeps them; of its slashes at the start only two, one or none are left. -/
theorem plainPath_slashes (k : Nat) {names : List String} (h : ∀ name ∈ names, PlainName name)
    (hne : names ≠ []) :
    plainPath (slashes k ++ "/".intercalate names) =
      (if k = 0 then "" else if k = 2 then "//" else "/") ++ "/".intercalate names := by
  obtain ⟨c, cs, htext, hc⟩ := toList_intercalate_cons h hne
  have hlength : ((slashes k ++ "/".intercalate names).toList.takeWhile (· == '/')).length = k := by
    rw [String.toList_append, htext, slashes, String.toList_ofList,
      List.takeWhile_append_of_pos (by simp)]
    simp [hc]
  have hnames : (split (slashes k ++ "/".intercalate names)).filter
      (fun name => name ≠ "" && name ≠ ".") = names := by
    rw [split_slashes, split_intercalate h hne, List.filter_append]
    have hkept : names.filter (fun name => name ≠ "" && name ≠ ".") = names := by
      refine List.filter_eq_self.2 fun name hname => ?_
      simp [(h name hname).ne_empty, (h name hname).ne_dot]
    rw [hkept]
    simp
  have hsome : names.isEmpty = false := by simpa using hne
  simp only [plainPath, hlength, hnames, hsome, Bool.and_false, Bool.false_eq_true, if_false]

theorem plainName_append {name extension : String} (hname : '/' ∉ name.toList)
    (hslash : '/' ∉ extension.toList) (hlength : 1 < extension.length) :
    PlainName (name ++ extension) := by
  have hsum : (name ++ extension).length = name.length + extension.length :=
    String.length_append ..
  refine ⟨by simp [hname, hslash], fun heq => ?_, fun heq => ?_⟩
  · rw [heq, show "".length = 0 from rfl] at hsum
    omega
  · rw [heq, show ".".length = 1 from rfl] at hsum
    omega

/-- Names of which the last goes on. -/
theorem exists_intercalate_append {extension : String} (hslash : '/' ∉ extension.toList)
    (hlength : 1 < extension.length) {names : List String} (h : ∀ name ∈ names, PlainName name) :
    ∃ others, (∀ name ∈ others, PlainName name) ∧ others ≠ [] ∧
      "/".intercalate names ++ extension = "/".intercalate others := by
  induction names with
  | nil =>
    have hname : PlainName ("" ++ extension) := plainName_append (by simp) hslash hlength
    exact ⟨[extension], by simpa using hname, by simp, by simp⟩
  | cons name rest ih =>
    obtain ⟨hname, hrest⟩ := List.forall_mem_cons.1 h
    by_cases hlast : rest = []
    · subst hlast
      have hjoined := plainName_append hname.slash hslash hlength
      exact ⟨[name ++ extension], by simpa using hjoined, by simp, by simp⟩
    · obtain ⟨others, hothers, hne, heq⟩ := ih hrest
      refine ⟨name :: others, List.forall_mem_cons.2 ⟨hname, hothers⟩, by simp, ?_⟩
      rw [String.intercalate_cons_of_ne_nil hlast, String.intercalate_cons_of_ne_nil hne,
        String.append_assoc, heq]

/-- A path in plain form stays as it is when its last name goes on. -/
theorem plainPath_append (path : String) {extension : String} (hslash : '/' ∉ extension.toList)
    (hlength : 1 < extension.length) :
    plainPath (plainPath path ++ extension) = plainPath path ++ extension := by
  have hplain : ∀ name ∈ (split path).filter (fun name => name ≠ "" && name ≠ "."),
      PlainName name := by
    intro name hname
    obtain ⟨hsplit, hkept⟩ := List.mem_filter.1 hname
    obtain ⟨cs, hcs, rfl⟩ := List.mem_map.1 hsplit
    simp only [Bool.and_eq_true, decide_eq_true_eq] at hkept
    exact ⟨by simpa using slash_notMem_of_mem_splitOn hcs, hkept.1, hkept.2⟩
  by_cases hdot : ((path.toList.takeWhile (· == '/')).length = 0 && ((split path).filter
      fun name => name ≠ "" && name ≠ ".").isEmpty) = true
  · have hpath : plainPath path = "." := if_pos hdot
    have hname : PlainName ("." ++ extension) := plainName_append (by decide) hslash hlength
    have hself := plainPath_slashes 0 (List.forall_mem_singleton.2 hname) (List.cons_ne_nil _ _)
    rw [hpath]
    simpa [slashes] using hself
  · obtain ⟨others, hothers, hne, heq⟩ := exists_intercalate_append hslash hlength hplain
    have hself := fun k => plainPath_slashes k hothers hne
    have hpath := show plainPath path = _ from if_neg hdot
    rw [hpath, String.append_assoc, heq]
    -- Two slashes at the start, one or none: each start is kept as it is.
    split
    · exact hself 0
    split
    · exact hself 2
    · exact hself 1

end Files

/-! ## Decoding -/

theorem Text.plainBreaks_eq_self {cs : List Char} (h : '\r' ∉ cs) : plainBreaks cs = cs := by
  fun_induction plainBreaks cs with
  | case1 => rfl
  | case2 rest ih => exact absurd List.mem_cons_self h
  | case3 c rest _ ih =>
    obtain ⟨hc, hrest⟩ := not_or.1 (fun hor => h (List.mem_cons.2 hor))
    rw [if_neg (Ne.symm hc), ih hrest]

namespace Batch

theorem decode_toUTF8 {text : String} (h : '\r' ∉ text.toList) : decode text.toUTF8 = .ok text := by
  have hbytes : String.fromUTF8? text.toUTF8 = some text := by
    simp only [String.fromUTF8?, String.toUTF8_eq_toByteArray, dif_pos text.isValidUTF8]
    rfl
  simp only [decode, hbytes, Text.withPlainBreaks, Text.plainBreaks_eq_self h, String.ofList_toList]

theorem readText_of_write {files files' : Files} {path text : String}
    (h : files.write path text = .ok files') (hreturn : '\r' ∉ text.toList) :
    readText files' path = .ok text := by
  simp only [readText, Files.open?_of_write h, decode_toUTF8 hreturn]

end Batch

end Scriptlet
