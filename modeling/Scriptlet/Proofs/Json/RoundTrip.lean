import Mathlib.Algebra.Group.Nat.Defs
import Scriptlet.Json.Printer
import Scriptlet.Json.Reader

/-!
# Reading JSON back

Values without fractions, with integers of at most `maxDigits` digits and distinct names in every
object (`Readable`) are read back from what was written (`read_pretty`). The induction is on the
value: whatever follows its text, the text is read and nothing more (`Reads`). What follows matters
to numbers only, which must not go on (`EndsNumber`); in an array or an object it is a blank, a
comma or nothing. The reader counts its calls down from the length of the text, and every call but
the first is made after a character, so the count is never used up.

Texts are written with every line break escaped, so the only line breaks in a written value are
those of its layout (`return_notMem_pretty`).
-/

namespace Scriptlet.Json

/-! ## Texts -/

theorem hexQuad?_hexDigits : ∀ n < 32, ∃ a b c d, Text.hexDigits 4 n = [a, b, c, d] ∧
    hexQuad? a b c d = some n := by
  have hquads : ∀ n < 32, hexQuad? (Text.hexDigit (n / 16 / 16 / 16 % 16))
      (Text.hexDigit (n / 16 / 16 % 16)) (Text.hexDigit (n / 16 % 16)) (Text.hexDigit (n % 16)) =
        some n := by decide
  intro n hn
  exact ⟨_, _, _, _, rfl, hquads n hn⟩

theorem units?_cons_of_ne {c : Char} (rest : List Char) (hquote : c ≠ '"') (hescape : c ≠ '\\')
    (hplain : ¬c.toNat < 32) :
    units? (c :: rest) = (units? rest).map fun (us, r) => (c.toNat :: us, r) := by
  rw [units?]
  · rw [if_neg hplain]
  · exact hquote
  · intro a b c' d rest' hc
    exact absurd hc hescape
  · intro c' rest' hc
    exact absurd hc hescape

theorem units?_escapeChar (c : Char) (rest : List Char) :
    units? (escapeChar c ++ rest) = (units? rest).map fun (us, r) => (c.toNat :: us, r) := by
  unfold escapeChar
  iterate 5
    split
    · next h =>
      subst h
      rfl
  iterate 2
    split
    · next h =>
      rw [h]
      rfl
  split
  · next h =>
    obtain ⟨a, b, c', d, hdigits, hquad⟩ := hexQuad?_hexDigits c.toNat h
    rw [hdigits]
    simp only [List.cons_append, List.nil_append, units?, hquad]
  · next hquote hescape _ _ _ _ _ hplain =>
    exact units?_cons_of_ne rest hquote hescape hplain

theorem units?_flatMap_escapeChar (cs rest : List Char) :
    units? (cs.flatMap escapeChar ++ '"' :: rest) = some (cs.map Char.toNat, rest) := by
  induction cs with
  | nil => rw [List.flatMap_nil, List.nil_append, units?, List.map_nil]
  | cons c cs ih =>
    rw [List.flatMap_cons, List.append_assoc, units?_escapeChar, ih]
    rfl

/-- No character is half a surrogate pair. -/
theorem isSurrogate_toNat (c : Char) :
    isHighSurrogate c.toNat = false ∧ isLowSurrogate c.toNat = false := by
  have hvalid := c.valid
  simp only [isHighSurrogate, isLowSurrogate, Bool.and_eq_false_iff, decide_eq_false_iff_not]
  simp only [UInt32.isValidChar, Nat.isValidChar] at hvalid
  simp only [Char.toNat]
  omega

theorem ofUnits_map_toNat (cs : List Char) : ofUnits (cs.map Char.toNat) = cs := by
  induction cs with
  | nil => rfl
  | cons c cs ih =>
    obtain ⟨hhigh, hlow⟩ := isSurrogate_toNat c
    cases cs with
    | nil => simp [ofUnits, hhigh, hlow]
    | cons d cs =>
      simp only [List.map_cons] at ih ⊢
      rw [ofUnits, ih]
      simp [hhigh, hlow]

theorem toList_quote (s : String) :
    (quote s).toList = '"' :: (s.toList.flatMap escapeChar ++ ['"']) := by
  rw [quote, String.toList_ofList, List.cons_append]

theorem textBody?_quote (s : String) (rest : List Char) :
    ∃ cs, (quote s).toList ++ rest = '"' :: cs ∧ textBody? cs = some (s, rest) := by
  refine ⟨s.toList.flatMap escapeChar ++ '"' :: rest, by simp [toList_quote], ?_⟩
  simp only [textBody?, units?_flatMap_escapeChar, Option.map_some, ofUnits_map_toNat,
    String.ofList_toList]

/-! ## Integers -/

/-- What follows a number does not go on with it. -/
def EndsNumber (rest : List Char) : Prop :=
  ∀ c ∈ rest.head?, c.isDigit = false ∧ c ≠ '.' ∧ c ≠ 'e' ∧ c ≠ 'E'

theorem head?_toDigits_ne {n : Nat} (h : 0 < n) : (Nat.toDigits 10 n).head? ≠ some '0' := by
  induction n using Nat.strongRecOn with
  | ind n ih =>
    by_cases hlt : n < 10
    · rw [Nat.toDigits_of_lt_base hlt]
      have hdigits : ∀ m < 10, 0 < m → [m.digitChar].head? ≠ some '0' := by decide
      exact hdigits n hlt h
    · rw [Nat.toDigits_of_base_le (by omega) (by omega)]
      have hrest := ih (n / 10) (by omega) (by omega)
      cases hdigits : Nat.toDigits 10 (n / 10) with
      | nil => exact absurd hdigits Nat.toDigits_ne_nil
      | cons c cs =>
        rw [hdigits] at hrest
        exact hrest

theorem digitsValue_toDigits (n : Nat) : Numeral.digitsValue (Nat.toDigits 10 n) = n :=
  Nat.ofDigitChars_eq_foldl.symm.trans Nat.ofDigitChars_ten_toDigits

theorem digits_append {ds rest : List Char} (hdigits : ∀ c ∈ ds, c.isDigit = true)
    (hrest : EndsNumber rest) : digits (ds ++ rest) = (ds, rest) := by
  have hstops : rest.takeWhile Char.isDigit = [] ∧ rest.dropWhile Char.isDigit = rest := by
    cases rest with
    | nil => exact ⟨rfl, rfl⟩
    | cons c rest => simp [(hrest c rfl).1]
  rw [digits, List.takeWhile_append_of_pos hdigits, List.dropWhile_append_of_pos hdigits, hstops.1,
    hstops.2, List.append_nil]

theorem whole_toDigits (n : Nat) {rest : List Char} (hrest : EndsNumber rest) :
    whole (Nat.toDigits 10 n ++ rest) = (Nat.toDigits 10 n, rest) := by
  rcases Nat.eq_zero_or_pos n with rfl | hpos
  · rw [Nat.toDigits_zero]
    rfl
  · have hhead := head?_toDigits_ne hpos
    have hdigits := digits_append (fun c (hc : c ∈ Nat.toDigits 10 n) =>
      Nat.isDigit_of_mem_toDigits (by decide) (by decide) hc) hrest
    unfold whole
    split
    · next r heq =>
      cases hcases : Nat.toDigits 10 n with
      | nil => exact absurd hcases Nat.toDigits_ne_nil
      | cons c cs =>
        rw [hcases, List.cons_append] at heq
        rw [hcases, (List.cons.inj heq).1] at hhead
        exact absurd rfl hhead
    · exact hdigits

theorem number_toDigits (negative : Bool) {n : Nat} (h : n < 10 ^ maxDigits) {rest : List Char}
    (hrest : EndsNumber rest) :
    number negative (Nat.toDigits 10 n ++ rest) =
      .ok (int (if negative then -n else n), rest) := by
  have hfraction : fraction rest = ([], rest) := by
    cases rest with
    | nil => rfl
    | cons c rest => simp [fraction, (hrest c rfl).2.1]
  have hpower : power rest = ([], rest) := by
    cases rest with
    | nil => rfl
    | cons c rest => simp [power, (hrest c rfl).2.2.1, (hrest c rfl).2.2.2]
  have hlength : ¬maxDigits < (Nat.toDigits 10 n).length :=
    Nat.not_lt.2 ((Nat.length_toDigits_le_iff (by decide) (by decide)).2 h)
  have hvalue := digitsValue_toDigits n
  rw [number, whole_toDigits n hrest]
  cases hds : Nat.toDigits 10 n with
  | nil => exact absurd hds Nat.toDigits_ne_nil
  | cons c cs =>
    rw [hds] at hvalue hlength
    simp only [hfraction, hpower, List.isEmpty_nil, Bool.and_self, if_true, if_neg hlength, hvalue]

theorem value_of_isDigit {c : Char} (h : c.isDigit = true) (fuel levels : Nat) (rest : List Char) :
    value (fuel + 1) levels (c :: rest) = number false (c :: rest) := by
  rw [value]
  all_goals
    intros
    rename_i heq
    rw [(List.cons.inj heq).1] at h
    exact absurd h (by decide)

theorem value_minus_of_isDigit {c : Char} (h : c.isDigit = true) (fuel levels : Nat)
    (rest : List Char) :
    value (fuel + 1) levels ('-' :: c :: rest) = number true (c :: rest) := by
  rw [value]
  intro rest' heq
  rw [(List.cons.inj heq).1] at h
  exact absurd h (by decide)

/-- An integer is read back. -/
theorem value_int {n : Int} (h : n.natAbs < 10 ^ maxDigits) (fuel levels : Nat) {rest : List Char}
    (hrest : EndsNumber rest) :
    value (fuel + 1) levels ((Number.integerText n).toList ++ rest) = .ok (int n, rest) := by
  have hnumber := fun negative => number_toDigits negative h hrest
  have hdigit : ∀ c ∈ Nat.toDigits 10 n.natAbs, c.isDigit = true :=
    fun c hc => Nat.isDigit_of_mem_toDigits (by decide) (by decide) hc
  unfold Number.integerText
  cases hds : Nat.toDigits 10 n.natAbs with
  | nil => exact absurd hds Nat.toDigits_ne_nil
  | cons c cs =>
    have hc : c.isDigit = true := hdigit c (hds ▸ List.mem_cons_self)
    rw [hds] at hnumber
    split
    · next hneg =>
      have hminus : ("-" ++ Nat.repr n.natAbs).toList ++ rest = '-' :: c :: (cs ++ rest) := by
        simp [Nat.toList_repr, hds]
      rw [hminus, value_minus_of_isDigit hc, ← List.cons_append, hnumber]
      simp only [if_true]
      rw [show -(n.natAbs : Int) = n by omega]
    · next hpos =>
      rw [Nat.toList_repr, hds, List.cons_append, value_of_isDigit hc, ← List.cons_append, hnumber]
      simp only [Bool.false_eq_true, if_false]
      rw [show (n.natAbs : Int) = n by omega]

theorem toList_integerText (n : Int) :
    ∃ c cs, (Number.integerText n).toList = c :: cs ∧ (c = '-' ∨ c.isDigit = true) := by
  unfold Number.integerText
  split
  · exact ⟨'-', _, String.toList_append, .inl rfl⟩
  · rw [Nat.toList_repr]
    cases hds : Nat.toDigits 10 n.natAbs with
    | nil => exact absurd hds Nat.toDigits_ne_nil
    | cons c cs =>
      exact ⟨c, cs, rfl, .inr (Nat.isDigit_of_mem_toDigits (by decide) (by decide)
        (hds ▸ List.mem_cons_self))⟩

/-! ## Blanks between values -/

theorem toList_lineBreak (level : Nat) :
    (lineBreak level).toList = '\n' :: List.replicate (2 * level) ' ' := by
  have hpushn : ∀ n, ("\n".pushn ' ' n).toList = '\n' :: List.replicate n ' ' := by
    intro n
    rw [String.pushn_eq_repeat_push]
    induction n with
    | zero => rfl
    | succ n ih => rw [Nat.repeat, String.toList_push, ih, List.replicate_succ', List.cons_append]
  exact hpushn _

theorem skip_lineBreak (level : Nat) (cs : List Char) :
    skip ((lineBreak level).toList ++ cs) = skip cs := by
  rw [toList_lineBreak, skip, List.cons_append, List.dropWhile_cons_of_pos rfl,
    List.dropWhile_append_of_pos]
  · rfl
  · intro c hc
    rw [(List.mem_replicate.1 hc).2]
    rfl

theorem skip_cons_of_not {c : Char} (h : isBlank c = false) (cs : List Char) :
    skip (c :: cs) = c :: cs := List.dropWhile_cons_of_neg (by simp [h])

/-! ## Values -/

/-- The text of the value is read back, whatever follows, within the given levels. -/
structure Reads (levels : Nat) (v : Json) : Prop where
  starts : ∀ level, ∃ c cs, (pretty level v).toList = c :: cs ∧ isBlank c = false ∧ c ≠ ']'
  value : ∀ (level fuel : Nat) (rest : List Char), (pretty level v).toList.length < fuel →
    EndsNumber rest → value fuel levels ((pretty level v).toList ++ rest) = .ok (v, rest)

theorem Reads.skip_append {levels : Nat} {v : Json} (h : Reads levels v) (level : Nat)
    (rest : List Char) :
    skip ((pretty level v).toList ++ rest) = (pretty level v).toList ++ rest := by
  obtain ⟨c, cs, heq, hblank, -⟩ := h.starts level
  rw [heq, List.cons_append, skip_cons_of_not hblank]

theorem endsNumber_of_isBlank {c : Char} (h : isBlank c = true ∨ c = ',') (rest : List Char) :
    EndsNumber (c :: rest) := by
  intro d hd
  obtain rfl := Option.some.inj hd
  simp only [isBlank, Bool.or_eq_true, beq_iff_eq] at h
  rcases h with ((((rfl | rfl) | rfl) | rfl) | rfl) <;> decide

theorem endsNumber_prettyItems (level : Nat) (vs : List Json) (rest : List Char) :
    EndsNumber ((prettyItems level vs).toList ++ rest) := by
  cases vs with
  | nil =>
    rw [prettyItems, String.toList_append, toList_lineBreak]
    exact endsNumber_of_isBlank (.inl rfl) _
  | cons v vs =>
    simp only [prettyItems, String.toList_append]
    exact endsNumber_of_isBlank (.inr rfl) _

/-- The items of an array are read back one after another. -/
theorem items_pretty {levels : Nat} {v : Json} {vs : List Json} (hv : Reads levels v)
    (hvs : ∀ w ∈ vs, Reads levels w) (level fuel : Nat) (rest : List Char)
    (hfuel : (pretty (level + 1) v).toList.length + (prettyItems level vs).toList.length < fuel) :
    items fuel levels
        ((pretty (level + 1) v).toList ++ ((prettyItems level vs).toList ++ rest)) =
      .ok (v :: vs, rest) := by
  induction vs generalizing v fuel with
  | nil =>
    obtain ⟨fuel, rfl⟩ : ∃ n, fuel = n + 1 := ⟨fuel - 1, by omega⟩
    have hends := endsNumber_prettyItems level [] rest
    have hskip : skip ((prettyItems level []).toList ++ rest) = ']' :: rest := by
      rw [prettyItems, String.toList_append, List.append_assoc, skip_lineBreak]
      rfl
    have hlength : 0 < (prettyItems level []).toList.length := by
      simp [prettyItems, toList_lineBreak]
    rw [items, hv.value _ _ _ (by omega) hends]
    simp only [hskip]
  | cons w vs ih =>
    obtain ⟨fuel, rfl⟩ : ∃ n, fuel = n + 1 := ⟨fuel - 1, by omega⟩
    obtain ⟨hw, hrest⟩ := List.forall_mem_cons.1 hvs
    have hends := endsNumber_prettyItems level (w :: vs) rest
    have htext : (prettyItems level (w :: vs)).toList =
        ',' :: ((lineBreak (level + 1)).toList ++
          ((pretty (level + 1) w).toList ++ (prettyItems level vs).toList)) := by
      simp [prettyItems]
    have hlength := congrArg List.length htext
    simp only [List.length_cons, List.length_append] at hlength
    rw [items, hv.value _ _ _ (by omega) hends, htext]
    simp only [List.cons_append, List.append_assoc, skip_cons_of_not (c := ',') rfl, skip_lineBreak,
      hw.skip_append, ih hw hrest fuel (by omega)]
    rfl

theorem endsNumber_prettyFields (level : Nat) (fs : List (String × Json)) (rest : List Char) :
    EndsNumber ((prettyFields level fs).toList ++ rest) := by
  cases fs with
  | nil =>
    rw [prettyFields, String.toList_append, toList_lineBreak]
    exact endsNumber_of_isBlank (.inl rfl) _
  | cons f fs =>
    simp only [prettyFields, String.toList_append]
    exact endsNumber_of_isBlank (.inr rfl) _

theorem setField_of_notMem {name : String} {before : List (String × Json)}
    (h : name ∉ before.map (·.1)) (v : Json) : setField name v before = before ++ [(name, v)] := by
  induction before with
  | nil => rfl
  | cons f before ih =>
    simp only [List.map_cons, List.mem_cons, not_or] at h
    rw [setField, if_neg (Ne.symm h.1), ih h.2, List.cons_append]

theorem notMem_of_nodup {name : String} {v : Json} {before fs : List (String × Json)}
    (h : ((before ++ (name, v) :: fs).map (·.1)).Nodup) : name ∉ before.map (·.1) := by
  rw [List.map_append] at h
  intro hmem
  exact (List.nodup_append.1 h).2.2 _ hmem _ List.mem_cons_self rfl

theorem fields_quote {levels : Nat} {name : String} {v : Json} {before : List (String × Json)}
    (hv : Reads levels v) (hnew : name ∉ before.map (·.1)) (level fuel : Nat) {after : List Char}
    (hends : EndsNumber after) (hfuel : (pretty level v).toList.length < fuel) {rest : List Char} :
    let found := fields (fuel + 1) levels before
      ((quote name).toList ++ (':' :: ' ' :: ((pretty level v).toList ++ after)))
    (skip after = '\x7d' :: rest → found = .ok (before ++ [(name, v)], rest)) ∧
      (skip after = ',' :: rest →
        found = fields fuel levels (before ++ [(name, v)]) (skip rest)) := by
  have hvalue := hv.value level fuel after hfuel hends
  have hcolon : ∀ cs, skip (':' :: cs) = ':' :: cs := fun cs => rfl
  have hblank : ∀ cs, skip (' ' :: cs) = skip cs := fun cs => rfl
  obtain ⟨cs, hquote, hbody⟩ := textBody?_quote name
    (':' :: ' ' :: ((pretty level v).toList ++ after))
  rw [hquote, fields, hbody]
  refine ⟨fun hskip => ?_, fun hskip => ?_⟩ <;>
    simp only [hcolon, hblank, hv.skip_append, hvalue, setField_of_notMem hnew, hskip]

/-- The fields of an object are read back one after another. -/
theorem fields_pretty {levels : Nat} {name : String} {v : Json} {fs before : List (String × Json)}
    (hv : Reads levels v) (hfs : ∀ f ∈ fs, Reads levels f.2)
    (hnames : ((before ++ (name, v) :: fs).map (·.1)).Nodup) (level fuel : Nat) (rest : List Char)
    (hfuel : (pretty (level + 1) v).toList.length + (prettyFields level fs).toList.length < fuel) :
    fields fuel levels before ((quote name).toList ++ (':' :: ' ' ::
        ((pretty (level + 1) v).toList ++ ((prettyFields level fs).toList ++ rest)))) =
      .ok (before ++ (name, v) :: fs, rest) := by
  induction fs generalizing name v before fuel with
  | nil =>
    obtain ⟨fuel, rfl⟩ : ∃ n, fuel = n + 1 := ⟨fuel - 1, by omega⟩
    have hskip : skip ((prettyFields level []).toList ++ rest) = '\x7d' :: rest := by
      rw [prettyFields, String.toList_append, List.append_assoc, skip_lineBreak]
      rfl
    have hlength : 0 < (prettyFields level []).toList.length := by
      simp [prettyFields, toList_lineBreak]
    exact (fields_quote hv (notMem_of_nodup hnames) _ _ (endsNumber_prettyFields level [] rest)
      (by omega)).1 hskip
  | cons f fs ih =>
    obtain ⟨fuel, rfl⟩ : ∃ n, fuel = n + 1 := ⟨fuel - 1, by omega⟩
    obtain ⟨hf, hrest⟩ := List.forall_mem_cons.1 hfs
    have htext : (prettyFields level (f :: fs)).toList =
        ',' :: ((lineBreak (level + 1)).toList ++ ((quote f.1).toList ++ (':' :: ' ' ::
          ((pretty (level + 1) f.2).toList ++ (prettyFields level fs).toList)))) := by
      simp [prettyFields]
    have hlength := congrArg List.length htext
    simp only [List.length_cons, List.length_append] at hlength
    have hnames' : ((before ++ [(name, v)] ++ (f.1, f.2) :: fs).map (·.1)).Nodup := by
      simpa using hnames
    have hquote : ∀ cs, skip ((quote f.1).toList ++ cs) = (quote f.1).toList ++ cs := by
      intro cs
      rw [toList_quote]
      exact skip_cons_of_not rfl _
    have hends := endsNumber_prettyFields level (f :: fs) rest
    rw [htext, List.cons_append] at hends ⊢
    rw [(fields_quote hv (notMem_of_nodup hnames) _ _ hends (by omega)).2 (skip_cons_of_not rfl _)]
    simp only [List.cons_append, List.append_assoc, skip_lineBreak, hquote,
      ih hf hrest hnames' fuel (by omega)]
    rfl

/-- Values that can be read back: nested no deeper than the given levels, with integers of few
enough digits, without numbers that have a point, and with distinct names in each object. -/
inductive Readable : Nat → Json → Prop
  | null {levels : Nat} : Readable levels null
  | bool {levels : Nat} (b : Bool) : Readable levels (bool b)
  | int {levels : Nat} {n : Int} (short : n.natAbs < 10 ^ maxDigits) : Readable levels (int n)
  | str {levels : Nat} (s : String) : Readable levels (str s)
  | arr {levels : Nat} {vs : List Json} (items : ∀ v ∈ vs, Readable levels v) :
      Readable (levels + 1) (arr vs)
  | obj {levels : Nat} {fs : List (String × Json)} (fields : ∀ f ∈ fs, Readable levels f.2)
      (names : (fs.map (·.1)).Nodup) : Readable (levels + 1) (obj fs)

theorem Readable.mono {m n : Nat} {v : Json} (h : Readable m v) (hle : m ≤ n) : Readable n v := by
  induction h generalizing n with
  | null => exact .null
  | bool b => exact .bool b
  | int short => exact .int short
  | str s => exact .str s
  | arr _ ih =>
    obtain ⟨n, rfl⟩ : ∃ k, n = k + 1 := ⟨n - 1, by omega⟩
    exact .arr fun v hv => ih v hv (by omega)
  | obj _ hnames ih =>
    obtain ⟨n, rfl⟩ : ∃ k, n = k + 1 := ⟨n - 1, by omega⟩
    exact .obj (fun f hf => ih f hf (by omega)) hnames

namespace Reads

theorem of_text {levels : Nat} {v : Json} {c : Char} {cs : List Char}
    (htext : ∀ level, (pretty level v).toList = c :: cs) (hblank : isBlank c = false)
    (hclose : c ≠ ']')
    (hvalue : ∀ fuel rest, EndsNumber rest →
      Json.value (fuel + 1) levels (c :: cs ++ rest) = .ok (v, rest)) : Reads levels v where
  starts level := ⟨c, cs, htext level, hblank, hclose⟩
  value level fuel rest hfuel hrest := by
    obtain ⟨fuel, rfl⟩ : ∃ n, fuel = n + 1 := ⟨fuel - 1, by omega⟩
    rw [htext]
    exact hvalue fuel rest hrest

theorem int {levels : Nat} {n : Int} (h : n.natAbs < 10 ^ maxDigits) : Reads levels (int n) := by
  obtain ⟨c, cs, htext, hc⟩ := toList_integerText n
  have hvalue := fun fuel rest (hrest : EndsNumber rest) => value_int h fuel levels hrest
  rw [htext] at hvalue
  refine of_text (fun _ => htext) ?_ ?_ hvalue
  · rw [Bool.eq_false_iff]
    intro hblank
    simp only [isBlank, Bool.or_eq_true, beq_iff_eq] at hblank
    rcases hblank with ((rfl | rfl) | rfl) | rfl <;> exact absurd hc (by decide)
  · rintro rfl
    exact absurd hc (by decide)

theorem str {levels : Nat} (s : String) : Reads levels (str s) := by
  refine of_text (fun _ => toList_quote s) rfl (by decide) fun fuel rest _ => ?_
  obtain ⟨cs, hquote, hbody⟩ := textBody?_quote s rest
  rw [← toList_quote, hquote, Json.value, hbody]

theorem arr {levels : Nat} {vs : List Json} (h : ∀ v ∈ vs, Reads levels v) :
    Reads (levels + 1) (arr vs) := by
  cases vs with
  | nil =>
    have htext : ∀ level, (pretty level (.arr [])).toList = ['[', ']'] := by
      intro level
      simp [pretty]
    exact of_text htext rfl (by decide) fun _ _ _ => rfl
  | cons v vs =>
    obtain ⟨hv, hvs⟩ := List.forall_mem_cons.1 h
    have htext : ∀ level, (pretty level (.arr (v :: vs))).toList = '[' ::
        ((lineBreak (level + 1)).toList ++
          ((pretty (level + 1) v).toList ++ (prettyItems level vs).toList)) := by
      intro level
      simp [pretty]
    refine ⟨fun level => ⟨_, _, htext level, rfl, by decide⟩, fun level fuel rest hfuel _ => ?_⟩
    rw [htext] at hfuel ⊢
    simp only [List.length_cons, List.length_append] at hfuel
    obtain ⟨fuel, rfl⟩ : ∃ n, fuel = n + 1 := ⟨fuel - 1, by omega⟩
    have hitems := items_pretty hv hvs level fuel rest (by omega)
    obtain ⟨c, cs, hstarts, hblank, hclose⟩ := hv.starts (level + 1)
    rw [hstarts] at hitems ⊢
    simp only [List.cons_append, List.append_assoc] at hitems ⊢
    rw [Json.value, skip_lineBreak, skip_cons_of_not hblank]
    split
    · next heq => exact absurd (List.cons.inj heq).1 hclose
    · rw [hitems]
      rfl

theorem obj {levels : Nat} {fs : List (String × Json)} (h : ∀ f ∈ fs, Reads levels f.2)
    (hnames : (fs.map (·.1)).Nodup) : Reads (levels + 1) (obj fs) := by
  cases fs with
  | nil =>
    have htext : ∀ level, (pretty level (.obj [])).toList = ['\x7b', '\x7d'] := by
      intro level
      simp [pretty]
    exact of_text htext rfl (by decide) fun _ _ _ => rfl
  | cons f fs =>
    obtain ⟨hf, hfs⟩ := List.forall_mem_cons.1 h
    have htext : ∀ level, (pretty level (.obj (f :: fs))).toList = '\x7b' ::
        ((lineBreak (level + 1)).toList ++ ((quote f.1).toList ++ (':' :: ' ' ::
          ((pretty (level + 1) f.2).toList ++ (prettyFields level fs).toList)))) := by
      intro level
      simp [pretty]
    refine ⟨fun level => ⟨_, _, htext level, rfl, by decide⟩, fun level fuel rest hfuel _ => ?_⟩
    rw [htext] at hfuel ⊢
    simp only [List.length_cons, List.length_append] at hfuel
    obtain ⟨fuel, rfl⟩ : ∃ n, fuel = n + 1 := ⟨fuel - 1, by omega⟩
    have hfields := @fields_pretty levels f.1 f.2 fs [] hf hfs hnames level fuel rest (by omega)
    rw [toList_quote] at hfields ⊢
    simp only [List.cons_append, List.append_assoc] at hfields ⊢
    rw [Json.value, skip_lineBreak, skip_cons_of_not (c := '"') rfl]
    split
    · next heq => exact absurd (List.cons.inj heq).1 (by decide)
    · rw [hfields]
      rfl

theorem of_readable {levels : Nat} {v : Json} (h : Readable levels v) : Reads levels v := by
  induction h with
  | null =>
    have htext : ∀ level, (pretty level .null).toList = ['n', 'u', 'l', 'l'] := by simp [pretty]
    exact of_text htext rfl (by decide) fun _ _ _ => rfl
  | bool b =>
    cases b with
    | false =>
      have htext : ∀ level, (pretty level (.bool false)).toList = ['f', 'a', 'l', 's', 'e'] := by
        simp [pretty]
      exact of_text htext rfl (by decide) fun _ _ _ => rfl
    | true =>
      have htext : ∀ level, (pretty level (.bool true)).toList = ['t', 'r', 'u', 'e'] := by
        simp [pretty]
      exact of_text htext rfl (by decide) fun _ _ _ => rfl
  | int short => exact int short
  | str s => exact str s
  | arr _ ih => exact arr ih
  | obj _ hnames ih => exact obj ih hnames

end Reads

/-- **What was written is read back**, if it is nested no deeper than the reader goes. -/
theorem read_pretty {levels : Nat} {v : Json} (h : Readable levels v) (level : Nat) :
    read levels (pretty level v) = .ok v := by
  have hreads := Reads.of_readable h
  have hvalue := hreads.value level ((pretty level v).toList.length + 1) [] (by omega)
    (fun c hc => nomatch hc)
  have hskip := hreads.skip_append level []
  rw [List.append_nil] at hvalue hskip
  rw [read, hskip, hvalue]
  rfl

/-! ## Line breaks -/

theorem return_notMem_escapeChar (c : Char) : '\r' ∉ escapeChar c := by
  have hhex : ∀ n < 32, '\r' ∉ Text.hexDigits 4 n := by decide
  unfold escapeChar
  iterate 7
    split
    · decide
  split
  · next hlow => simp [hhex _ hlow]
  · next hreturn _ _ _ _ => simpa using Ne.symm hreturn

theorem return_notMem_quote (s : String) : '\r' ∉ (quote s).toList := by
  simp [toList_quote, return_notMem_escapeChar]

theorem return_notMem_integerText (n : Int) : '\r' ∉ (Number.integerText n).toList := by
  have hdigits : '\r' ∉ Nat.toDigits 10 n.natAbs := by
    intro hmem
    exact absurd (Nat.isDigit_of_mem_toDigits (by decide) (by decide) hmem) (by decide)
  unfold Number.integerText
  split <;> simp [hdigits]

theorem return_notMem_lineBreak (level : Nat) : '\r' ∉ (lineBreak level).toList := by
  simp [toList_lineBreak]

theorem return_notMem_prettyItems {level : Nat} {vs : List Json}
    (h : ∀ v ∈ vs, '\r' ∉ (pretty (level + 1) v).toList) :
    '\r' ∉ (prettyItems level vs).toList := by
  induction vs with
  | nil => simp [prettyItems, return_notMem_lineBreak]
  | cons v vs ih =>
    obtain ⟨hv, hvs⟩ := List.forall_mem_cons.1 h
    simp [prettyItems, return_notMem_lineBreak, hv, ih hvs]

theorem return_notMem_prettyFields {level : Nat} {fs : List (String × Json)}
    (h : ∀ f ∈ fs, '\r' ∉ (pretty (level + 1) f.2).toList) :
    '\r' ∉ (prettyFields level fs).toList := by
  induction fs with
  | nil => simp [prettyFields, return_notMem_lineBreak]
  | cons f fs ih =>
    obtain ⟨hf, hfs⟩ := List.forall_mem_cons.1 h
    simp [prettyFields, return_notMem_lineBreak, return_notMem_quote, hf, ih hfs]

/-- What is written holds no line breaks of other systems. -/
theorem return_notMem_pretty {levels : Nat} {v : Json} (h : Readable levels v) (level : Nat) :
    '\r' ∉ (pretty level v).toList := by
  induction h generalizing level with
  | null => simp [pretty]
  | bool b => cases b <;> simp [pretty]
  | int => exact return_notMem_integerText _
  | str s => exact return_notMem_quote s
  | @arr _ vs _ ih =>
    cases vs with
    | nil => simp [pretty]
    | cons v vs =>
      obtain ⟨hv, hvs⟩ := List.forall_mem_cons.1 fun v hv => ih v hv (level + 1)
      simp [pretty, return_notMem_lineBreak, hv, return_notMem_prettyItems hvs]
  | @obj _ fs _ _ ih =>
    cases fs with
    | nil => simp [pretty]
    | cons f fs =>
      obtain ⟨hf, hfs⟩ := List.forall_mem_cons.1 fun f hf => ih f hf (level + 1)
      simp [pretty, return_notMem_lineBreak, return_notMem_quote, hf,
        return_notMem_prettyFields hfs]

end Scriptlet.Json
