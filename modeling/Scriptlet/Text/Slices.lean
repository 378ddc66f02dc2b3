/-!
# Repeating and cutting texts

The operations on texts behind the string operators, each with what it does to the characters.
Repetition doubles what it has, so that long texts are built in few steps.
-/

namespace Scriptlet.Text

/-- A text repeated. -/
def repeated (s : String) (count : Nat) : String :=
  if count = 0 then ""
  else
    let half := repeated s (count / 2)
    if count % 2 = 0 then half ++ half else half ++ half ++ s
termination_by count
decreasing_by omega

/-- The first characters of a text, at most `count`. -/
def first (s : String) (count : Nat) : String := (s.take count).copy

/-- The text without the given end, if it has that end. -/
def withoutEnd (s ending : String) : String :=
  let n := ending.length
  if n ≠ 0 ∧ (s.takeEnd n).copy = ending then (s.dropEnd n).copy else s

@[simp] theorem toList_first (s : String) (count : Nat) :
    (first s count).toList = s.toList.take count := by
  simp [first, String.toList_copy_take]

theorem toList_repeated (s : String) (count : Nat) :
    (repeated s count).toList = (List.replicate count s.toList).flatten := by
  fun_induction repeated s count with
  | case1 => simp
  | case2 count hpos half heven ih =>
    have hsplit : count = count / 2 + count / 2 := by omega
    rw [String.toList_append, ih, ← List.flatten_append, List.replicate_append_replicate, ← hsplit]
  | case3 count hpos half hodd ih =>
    have hsplit : count = count / 2 + count / 2 + 1 := by omega
    rw [String.toList_append, String.toList_append, ih, ← List.flatten_append,
      List.replicate_append_replicate]
    conv => rhs; rw [hsplit, List.replicate_succ', List.flatten_append]
    simp

end Scriptlet.Text
