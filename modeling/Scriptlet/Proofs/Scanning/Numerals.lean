import Mathlib.Data.List.TakeWhile
import Scriptlet.Number.Numeral
import Scriptlet.Proofs.Scanning.Pieces

/-!
# Numbers in a source text are numerals

What the scan takes for a number is digits, or digits around a point with at least one digit after
it (`Numeral.Simple`), and every such text has a value (`Numeral.value?_isSome`). The reader of
numerals does more than that with blanks, underscores, signs and digits of other scripts; none of
these occur here, so each of its passes leaves the text as it is.
-/

namespace Scriptlet.Numeral

/-- Digits, or digits around a point with at least one digit after it. -/
inductive Simple : List Char → Prop
  | whole {digits : List Char} (ne : digits ≠ []) (all : ∀ c ∈ digits, c.isDigit = true) :
      Simple digits
  | fraction {digits decimals : List Char} (ne : decimals ≠ [])
      (all : ∀ c ∈ digits, c.isDigit = true) (decimal : ∀ c ∈ decimals, c.isDigit = true) :
      Simple (digits ++ '.' :: decimals)

/-- The characters of simple numerals. -/
def isSimpleChar (c : Char) : Bool := c.isDigit || c == '.'

namespace Simple

theorem mem {cs : List Char} (h : Simple cs) {c : Char} (hc : c ∈ cs) : isSimpleChar c = true := by
  have hdigit : ∀ {d : Char}, d.isDigit = true → isSimpleChar d = true := by
    intro d hd
    simp [isSimpleChar, hd]
  cases h with
  | whole _ hall => exact hdigit (hall c hc)
  | fraction _ hall hdecimal =>
    rcases List.mem_append.1 hc with hc | hc
    · exact hdigit (hall c hc)
    rcases List.mem_cons.1 hc with rfl | hc
    · rfl
    · exact hdigit (hdecimal c hc)

theorem ne_nil {cs : List Char} (h : Simple cs) : cs ≠ [] := by
  cases h with
  | whole hne => exact hne
  | fraction => simp

end Simple

/-! ## What the passes of the reader do to simple characters -/

section Chars

variable {c : Char} (h : isSimpleChar c = true)

include h

theorem plainDigit_of_isSimpleChar : plainDigit c = c := by
  simp only [isSimpleChar, Bool.or_eq_true, beq_iff_eq] at h
  rcases h with hdigit | rfl
  · obtain ⟨hlow, hhigh⟩ := Char.isDigit_iff_toNat.1 hdigit
    have hascii : c.toNat < 128 := Nat.lt_of_le_of_lt hhigh (by decide)
    have hcode : '0'.toNat + (c.toNat - '0'.toNat) = c.toNat := Nat.add_sub_of_le hlow
    simp only [plainDigit, Text.decimalValue?, hascii, hdigit, if_true, hcode, Char.ofNat_toNat]
  · rfl

theorem isBlank_of_isSimpleChar : isBlank c = false := by
  have hrange : 46 ≤ c.toNat ∧ c.toNat ≤ 57 := by
    simp only [isSimpleChar, Bool.or_eq_true, beq_iff_eq] at h
    rcases h with hdigit | rfl
    · obtain ⟨hlow, hhigh⟩ := Char.isDigit_iff_toNat.1 hdigit
      exact ⟨Nat.le_trans (by decide) hlow, hhigh⟩
    · decide
  simp only [isBlank, Bool.or_eq_false_iff, Bool.and_eq_false_iff, decide_eq_false_iff_not,
    beq_eq_false_iff_ne]
  omega

theorem ne_of_isSimpleChar {d : Char} (hd : isSimpleChar d = false) : c ≠ d := by
  rintro rfl
  rw [h] at hd
  cases hd

end Chars

theorem dropWhile_isBlank {cs : List Char} (h : ∀ c ∈ cs, isSimpleChar c = true) :
    cs.dropWhile isBlank = cs := by
  cases cs with
  | nil => rfl
  | cons c rest =>
    rw [List.dropWhile_cons, isBlank_of_isSimpleChar (h c List.mem_cons_self)]
    rfl

theorem strip_eq_self {cs : List Char} (h : ∀ c ∈ cs, isSimpleChar c = true) : strip cs = cs := by
  have hreverse : ∀ c ∈ cs.reverse, isSimpleChar c = true :=
    fun c hc => h c (List.mem_reverse.1 hc)
  rw [strip, dropWhile_isBlank h, dropWhile_isBlank hreverse, List.reverse_reverse]

theorem dropUnderscores_eq_self {cs : List Char} (h : ∀ c ∈ cs, isSimpleChar c = true)
    (after : Bool) : dropUnderscores after cs = some cs := by
  induction cs generalizing after with
  | nil => rfl
  | cons c rest ih =>
    have hc : c ≠ '_' := ne_of_isSimpleChar (h c List.mem_cons_self) rfl
    rw [dropUnderscores, if_neg hc, ih fun d hd => h d (List.mem_cons_of_mem _ hd)]
    · rfl
    · intro _ _ hunderscore
      exact absurd hunderscore hc

/-! ## The value -/

theorem decimal?_isSome {cs : List Char} (h : Simple cs) : (decimal? cs).isSome = true := by
  cases h with
  | whole hne hall =>
    have htake : cs.takeWhile Char.isDigit = cs := List.takeWhile_eq_self_iff.2 hall
    have hdrop : cs.dropWhile Char.isDigit = [] := List.dropWhile_eq_nil_iff.2 hall
    simp [decimal?, htake, hdrop, hne]
  | @fraction digits decimals hne hall hdecimal =>
    have htake : (digits ++ '.' :: decimals).takeWhile Char.isDigit = digits := by
      rw [List.takeWhile_append_of_pos hall, List.takeWhile_cons]
      exact List.append_nil digits
    have hdrop : (digits ++ '.' :: decimals).dropWhile Char.isDigit = '.' :: decimals := by
      rw [List.dropWhile_append_of_pos hall, List.dropWhile_cons]
      rfl
    have htake' : decimals.takeWhile Char.isDigit = decimals :=
      List.takeWhile_eq_self_iff.2 hdecimal
    have hdrop' : decimals.dropWhile Char.isDigit = [] := List.dropWhile_eq_nil_iff.2 hdecimal
    simp [decimal?, htake, hdrop, htake', hdrop', hne]

theorem unsigned?_isSome {cs : List Char} (h : Simple cs) : (unsigned? cs).isSome = true := by
  simp only [unsigned?]
  split
  · rfl
  split
  · rfl
  · rw [Option.isSome_map]
    exact decimal?_isSome h

/-- A simple numeral has a value. -/
theorem value?_isSome {cs : List Char} (h : Simple cs) :
    (value? (String.ofList cs)).isSome = true := by
  have hplain : cs.map plainDigit = cs := by
    refine (List.map_congr_left fun c hc => ?_).trans (List.map_id cs)
    exact plainDigit_of_isSimpleChar (h.mem hc)
  rw [value?, String.toList_ofList, hplain, strip_eq_self fun c hc => h.mem hc,
    dropUnderscores_eq_self fun c hc => h.mem hc]
  have hunsigned := unsigned?_isSome h
  cases cs with
  | nil => exact absurd rfl h.ne_nil
  | cons c rest =>
    have hc := h.mem List.mem_cons_self
    split
    · next heq =>
      exact absurd (List.cons.inj (Option.some.inj heq)).1 (ne_of_isSimpleChar hc rfl)
    · next heq =>
      exact absurd (List.cons.inj (Option.some.inj heq)).1 (ne_of_isSimpleChar hc rfl)
    · next heq => exact Option.some.inj heq ▸ hunsigned
    · next heq => cases heq

end Scriptlet.Numeral

/-! ## Numbers of a scan -/

namespace Scriptlet.Piece

open Lexeme

theorem simple_of_isDigit {c : Char} (rest : List Char) (h : c.isDigit = true) :
    Numeral.Simple (c :: rest.take (numberLength rest)) := by
  have hdigits : ∀ d ∈ c :: rest.take (run Char.isDigit rest), d.isDigit = true := by
    intro d hd
    rcases List.mem_cons.1 hd with rfl | hd
    · exact h
    · exact of_mem_take_run hd
  rw [numberLength, List.take_add, ← List.cons_append]
  generalize rest.drop (run Char.isDigit rest) = after
  unfold fractionLength
  split
  · next d decimals =>
    split
    · next hd =>
      rw [Nat.add_comm, List.take_succ_cons, List.take_succ_cons]
      refine .fraction (by simp) hdigits fun e he => ?_
      rcases List.mem_cons.1 he with rfl | he
      · exact hd
      · exact of_mem_take_run he
    · rw [List.take_zero, List.append_nil]
      exact .whole (by simp) hdigits
  · rw [List.take_zero, List.append_nil]
    exact .whole (by simp) hdigits

theorem simple_of_point {rest : List Char} (h : startsWithDigit rest = true) :
    Numeral.Simple ('.' :: rest.take (run Char.isDigit rest)) := by
  have hne : rest.take (run Char.isDigit rest) ≠ [] := by
    cases rest with
    | nil => cases h
    | cons c rest =>
      have hc : c.isDigit = true := h
      simp [run, hc]
  exact @Numeral.Simple.fraction [] _ hne (by simp) fun c hc => of_mem_take_run hc

/-- What is cut as a number is a numeral. -/
theorem numeral_of_extent {c : Char} {rest : List Char} {n : Nat}
    (h : extent c rest = (.token .number, n)) :
    (Numeral.value? (String.ofList (c :: rest.take n))).isSome = true := by
  generalize hk : Kind.number = k at h
  cases cut_of_extent h with
  | number hdigit hn =>
    subst hn
    exact Numeral.value?_isSome (simple_of_isDigit rest hdigit)
  | fraction hpoint hdigits hn =>
    subst hpoint hn
    exact Numeral.value?_isSome (simple_of_point hdigits)
  | word _ _ hword => exact absurd (hk.trans hword).symm (wordKind_ne _ (by decide) (by decide))
  | mark hmem | pair hmem | single hmem =>
    subst hk
    simp [marks, pairs, singles] at hmem
  | _ => cases hk

/-- No piece is cut as the end of a source text. -/
theorem ne_endOfFile_of_extent {c : Char} {rest : List Char} {k : Kind} {n : Nat}
    (h : extent c rest = (.token k, n)) : k ≠ .endOfFile := by
  rintro rfl
  generalize hk : Kind.endOfFile = k at h
  cases cut_of_extent h with
  | word _ _ hword => exact absurd (hk.trans hword).symm (wordKind_ne _ (by decide) (by decide))
  | mark hmem | pair hmem | single hmem =>
    subst hk
    simp [marks, pairs, singles] at hmem
  | _ => cases hk

end Scriptlet.Piece
