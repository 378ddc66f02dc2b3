import Mathlib.Data.Rat.Floor
import Scriptlet.Operation

/-!
# The operators of texts

Joining and taking an end off undo each other, and so do repeating a text and cutting it down, as
far as there is a result (`Operation.text_inverse_laws`). With a number beside the text, the first
two work on the number's printed text, whatever it looks like; the other two on the integers next to
the number. These are the floor and the ceiling of its exact value (`Binary64.value?`), so nothing in
these laws depends on how numbers round.
-/

namespace Scriptlet

/-! ## Exact values -/

namespace Binary64

/-- The exact value of a finite number. -/
def value? : Binary64 → Option ℚ
  | finite negative significand exponent => some (signed negative significand * 2 ^ exponent)
  | _ => none

theorem floorScaled_eq_floor (n exponent : ℤ) :
    floorScaled n exponent = ⌊(n : ℚ) * 2 ^ exponent⌋ := by
  unfold floorScaled
  split
  · next h =>
    obtain ⟨k, rfl⟩ := Int.eq_ofNat_of_zero_le h
    have hcast : (n : ℚ) * 2 ^ (k : ℤ) = ((n * (2 ^ k : ℕ) : ℤ) : ℚ) := by
      push_cast
      rw [zpow_natCast]
    rw [hcast, Int.floor_intCast]
    rfl
  · next h =>
    obtain ⟨k, hk⟩ := Int.eq_ofNat_of_zero_le (Int.le_of_lt (Int.neg_pos_of_neg (Int.not_le.1 h)))
    obtain rfl : exponent = -(k : ℤ) := by omega
    have hcast : (n : ℚ) * 2 ^ (-(k : ℤ)) = (n : ℚ) / ((2 ^ k : ℕ) : ℚ) := by
      push_cast
      rw [zpow_neg, zpow_natCast, div_eq_mul_inv]
    rw [hcast, Rat.floor_intCast_div_natCast, neg_neg]
    exact Int.fdiv_eq_ediv_of_nonneg _ (Int.natCast_nonneg _)

variable {x : Binary64} {q : ℚ}

theorem floor?_of_value? (h : x.value? = some q) : x.floor? = some ⌊q⌋ := by
  cases x with
  | finite negative significand exponent =>
    cases h
    exact congrArg some (floorScaled_eq_floor _ _)
  | _ => cases h

theorem ceil?_of_value? (h : x.value? = some q) : x.ceil? = some ⌈q⌉ := by
  cases x with
  | finite negative significand exponent =>
    cases h
    refine congrArg some ?_
    rw [floorScaled_eq_floor, Int.cast_neg, neg_mul, Int.floor_neg, neg_neg]
  | _ => cases h

end Binary64

/-! ## Ends, repetitions and beginnings -/

namespace Text

theorem withoutEnd_append (s ending : String) : withoutEnd (s ++ ending) ending = s := by
  simp only [withoutEnd]
  split
  · refine String.toList_injective ?_
    simp [String.toList_copy_dropEnd, String.length_toList]
  · next h =>
    have htake : ((s ++ ending).takeEnd ending.length).copy = ending :=
      String.toList_injective (by simp [String.toList_copy_takeEnd, String.length_toList])
    have hempty : ending = "" := by simpa [htake] using h
    rw [hempty, String.append_empty]

theorem withoutEnd_eq_self {s ending : String}
    (h : ¬(ending ≠ "" ∧ ending.toList <:+ s.toList)) : withoutEnd s ending = s := by
  refine if_neg fun hend => h ⟨fun hempty => hend.1 (by simp [hempty]), ?_⟩
  rw [← hend.2, String.toList_copy_takeEnd]
  exact List.drop_suffix _ _

theorem exists_append_of_suffix {s ending : String} (h : ending.toList <:+ s.toList) :
    ∃ start, s = start ++ ending := by
  obtain ⟨start, hstart⟩ := h
  exact ⟨String.ofList start, String.toList_injective (by simp [hstart])⟩

theorem length_repeated (s : String) (count : ℕ) :
    (repeated s count).length = s.length * count := by
  rw [← String.length_toList, toList_repeated]
  simp [Nat.mul_comm, String.length_toList]

theorem first_repeated (s : String) {count : ℕ} (h : 0 < count) :
    first (repeated s count) s.length = s := by
  obtain ⟨k, rfl⟩ := Nat.exists_eq_succ_of_ne_zero (Nat.ne_of_gt h)
  refine String.toList_injective ?_
  rw [toList_first, toList_repeated, List.replicate_succ, List.flatten_cons,
    ← String.length_toList, List.take_left]

theorem first_isPrefix (s : String) (count : ℕ) : (first s count).toList <+: s.toList := by
  rw [toList_first]
  exact List.take_prefix _ _

theorem first_isPrefix_first (s : String) {m n : ℕ} (h : m ≤ n) :
    (first s m).toList <+: (first s n).toList := by
  rw [toList_first, toList_first]
  exact List.take_prefix_take_left h

end Text

/-! ## Operators -/

namespace Operation

open Text (withoutEnd first)

variable (s t : String) (x : Float)

theorem apply_plus_texts : apply .plus (.text s) (.text t) = .ok (.text (s ++ t)) := rfl

theorem apply_minus_texts : apply .minus (.text s) (.text t) = .ok (.text (withoutEnd s t)) := rfl

theorem apply_minus_number :
    apply .minus (.text s) (.number x) = .ok (.text (withoutEnd s (Number.plainText x))) := rfl

/-- Repetition fails only where the result would be too long: where it gives the empty text at once,
repeating would give it as well. -/
theorem repetition_eq (count : ℤ) : repetition s x count =
    if (maxLength : ℤ) < s.length * count then .error (.tooLong (Number.plainText x))
    else .ok (.text (Text.repeated s count.toNat)) := by
  unfold repetition
  split
  · next hnone =>
    have hlength : (s.length : ℤ) * count ≤ 0 := by
      rcases hnone with hcount | hempty
      · exact mul_nonpos_of_nonneg_of_nonpos (Int.natCast_nonneg _) hcount
      · simp [String.isEmpty_iff.1 hempty]
    have hrepeated : Text.repeated s count.toNat = "" := by
      refine String.toList_injective ?_
      rcases hnone with hcount | hempty
      · simp [Text.toList_repeated, Int.toNat_of_nonpos hcount]
      · simp [Text.toList_repeated, String.isEmpty_iff.1 hempty]
    rw [if_neg (by simp only [maxLength]; omega), hrepeated]
  · rfl

theorem repetition_eq_error_iff {count : ℤ} : (∃ cause, repetition s x count = .error cause) ↔
    s ≠ "" ∧ (maxLength : ℤ) < s.length * count := by
  rw [repetition_eq]
  constructor
  · rintro ⟨cause, hcause⟩
    split at hcause
    · next hlong => exact ⟨fun hempty => by simp [hempty, maxLength] at hlong, hlong⟩
    · cases hcause
  · rintro ⟨-, hlong⟩
    exact ⟨_, if_pos hlong⟩

theorem eq_repeated_of_repetition {count : ℤ} {v : Value} (h : repetition s x count = .ok v) :
    v = .text (Text.repeated s count.toNat) := by
  rw [repetition_eq] at h
  split at h
  · cases h
  · exact (Except.ok.inj h).symm

/-- A positive divisor leaves that part of a text, rounded down. -/
theorem fraction_eq {divisor : ℤ} (h : 0 < divisor) :
    fraction s divisor = .ok (.text (first s (s.length / divisor.toNat))) := by
  obtain ⟨k, rfl⟩ := Int.eq_ofNat_of_zero_le (Int.le_of_lt h)
  rw [fraction, if_neg (Int.ne_of_gt h), Int.fdiv_eq_ediv_of_nonneg _ (Int.natCast_nonneg k),
    ← Int.natCast_ediv, Int.toNat_natCast, Int.toNat_natCast]

theorem fraction_repeated {count : ℕ} (h : 0 < count) :
    fraction (Text.repeated s count) count = .ok (.text s) := by
  rw [fraction_eq _ (Int.natCast_pos.2 h), Text.length_repeated, Int.toNat_natCast,
    Nat.mul_div_cancel _ h, Text.first_repeated s h]

section Finite

variable {x} {q : ℚ} (h : (Binary64.ofFloat x).value? = some q)

include h

theorem apply_star : apply .star (.text s) (.number x) = repetition s x ⌊q⌋ := by
  simp only [apply, meaning?, textNumber?, Binary64.floor?_of_value? h, withFinite,
    Option.getD_some]

theorem apply_slash : apply .slash (.text s) (.number x) = fraction s ⌈q⌉ := by
  simp only [apply, meaning?, textNumber?, Binary64.ceil?_of_value? h, withFinite,
    Option.getD_some]

theorem apply_slash_of_pos (hpos : 0 < q) : apply .slash (.text s) (.number x) =
    .ok (.text (first s (s.length / ⌈q⌉.toNat))) := by
  rw [apply_slash s h, fraction_eq s (Int.ceil_pos.2 hpos)]

end Finite

/-- **The operators of texts undo each other.** What was joined to a text can be taken off again,
also the printed text of a number; taking off changes a text only if it has the end, and then joining
the end gives it back. Repeating by a finite number fails exactly if the text is not empty and the
result would be too long, and otherwise has the length that it should have. Cutting down by a whole
number undoes the repetition; cutting by a larger number leaves less of the start of a text. -/
theorem text_inverse_laws (a : String) :
    (∀ b : String,
      (apply .plus (.text a) (.text b) >>= (apply .minus · (.text b))) = .ok (.text a)) ∧
    (∀ x : Float,
      (apply .plus (.text a) (.number x) >>= (apply .minus · (.number x))) = .ok (.text a)) ∧
    (∀ b : String,
      (b ≠ "" ∧ b.toList <:+ a.toList →
        (apply .minus (.text a) (.text b) >>= (apply .plus · (.text b))) = .ok (.text a)) ∧
      (¬(b ≠ "" ∧ b.toList <:+ a.toList) → apply .minus (.text a) (.text b) = .ok (.text a))) ∧
    (∀ (x : Float) (q : ℚ), (Binary64.ofFloat x).value? = some q →
      ((∃ cause, apply .star (.text a) (.number x) = .error cause) ↔
        a ≠ "" ∧ 100000000 < (a.length : ℤ) * ⌊q⌋) ∧
      ∀ v, apply .star (.text a) (.number x) = .ok v →
        (∃ t : String, v = .text t ∧ (t.length : ℤ) = a.length * max 0 ⌊q⌋) ∧
        ∀ n : ℕ, 1 ≤ n → q = n → apply .slash v (.number x) = .ok (.text a)) ∧
    ∀ (x y : Float) (p q : ℚ), (Binary64.ofFloat x).value? = some p →
      (Binary64.ofFloat y).value? = some q → 0 < p → p ≤ q →
      ∃ s t : String, apply .slash (.text a) (.number y) = .ok (.text s) ∧
        apply .slash (.text a) (.number x) = .ok (.text t) ∧
        s.toList <+: t.toList ∧ t.toList <+: a.toList := by
  refine ⟨?_, ?_, ?_, ?_, ?_⟩
  · intro b
    change apply .minus (.text (a ++ b)) (.text b) = _
    rw [apply_minus_texts, Text.withoutEnd_append]
  · intro x
    change apply .minus (.text (a ++ Number.plainText x)) (.number x) = _
    rw [apply_minus_number, Text.withoutEnd_append]
  · intro b
    constructor
    · rintro ⟨-, hsuffix⟩
      obtain ⟨start, rfl⟩ := Text.exists_append_of_suffix hsuffix
      change apply .plus (.text (withoutEnd (start ++ b) b)) (.text b) = _
      rw [Text.withoutEnd_append, apply_plus_texts]
    · intro hnot
      rw [apply_minus_texts, Text.withoutEnd_eq_self hnot]
  · intro x q hq
    rw [apply_star a hq]
    refine ⟨repetition_eq_error_iff a x, fun v hv => ?_⟩
    obtain rfl := eq_repeated_of_repetition a x hv
    refine ⟨⟨_, rfl, ?_⟩, ?_⟩
    · rw [Text.length_repeated, Nat.cast_mul, Int.toNat_eq_max, max_comm]
    · rintro n hn rfl
      rw [apply_slash _ hq, Int.floor_natCast, Int.ceil_natCast, Int.toNat_natCast]
      exact fraction_repeated a hn
  · intro x y p q hp hq hpos hle
    have hceil : 0 < ⌈p⌉ := Int.ceil_pos.2 hpos
    have hmono : ⌈p⌉ ≤ ⌈q⌉ := Int.ceil_mono hle
    refine ⟨_, _, apply_slash_of_pos a hq (lt_of_lt_of_le hpos hle),
      apply_slash_of_pos a hp hpos, ?_, Text.first_isPrefix a _⟩
    exact Text.first_isPrefix_first a (Nat.div_le_div_left (by omega) (by omega))

/-- A text whose end also stands earlier in it, repeated, and cut by numbers that are not whole. -/
theorem text_inverse_laws_repeated_end :
    (apply .minus (.text "abab") (.text "ab") >>= (apply .plus · (.text "ab"))) =
        .ok (.text "abab") ∧
      (∃ v, apply .star (.text "abab") (.number 3) = .ok v ∧
        apply .slash v (.number 3) = .ok (.text "abab")) ∧
      ∃ s t : String, apply .slash (.text "abab") (.number 2.5) = .ok (.text s) ∧
        apply .slash (.text "abab") (.number 1.5) = .ok (.text t) ∧ s.toList <+: t.toList := by
  obtain ⟨-, -, hends, hrepeats, hcuts⟩ := text_inverse_laws "abab"
  have hthree : (Binary64.ofFloat 3).value? = some 3 := by
    have hparts : Binary64.ofFloat 3 = .finite false (3 * 2 ^ 51) (-51) := by decide +kernel
    rw [hparts]
    norm_num [Binary64.value?, Binary64.signed]
  have hlow : (Binary64.ofFloat 1.5).value? = some (3 / 2) := by
    have hparts : Binary64.ofFloat 1.5 = .finite false (3 * 2 ^ 51) (-52) := by decide +kernel
    rw [hparts]
    norm_num [Binary64.value?, Binary64.signed]
  have hhigh : (Binary64.ofFloat 2.5).value? = some (5 / 2) := by
    have hparts : Binary64.ofFloat 2.5 = .finite false (5 * 2 ^ 50) (-51) := by decide +kernel
    rw [hparts]
    norm_num [Binary64.value?, Binary64.signed]
  refine ⟨(hends "ab").1 (by decide), ?_, ?_⟩
  · obtain ⟨hfails, hgives⟩ := hrepeats 3 3 hthree
    cases hstar : apply .star (.text "abab") (.number 3) with
    | error cause =>
      have hlong := (hfails.1 ⟨cause, hstar⟩).2
      rw [show "abab".length = 4 from rfl] at hlong
      norm_num at hlong
    | ok v => exact ⟨v, rfl, (hgives v hstar).2 3 (by decide) (by norm_num)⟩
  · obtain ⟨s, t, hs, ht, hprefix, -⟩ :=
      hcuts 1.5 2.5 (3 / 2) (5 / 2) hlow hhigh (by norm_num) (by norm_num)
    exact ⟨s, t, hs, ht, hprefix⟩

end Operation

end Scriptlet
