import Scriptlet.Reading

/-!
# The grammar of statements

The grammar that programs obey, said without any front end: which trees it derives (`Node.OfLevel`,
`Node.Canonical`) and which token lists spell a tree (`Node.Spells`, `Writes`).

    program    -> separator* (statement (separator+ | end))*
    statement  -> "print" assignment | assignment
    assignment -> logical ("=" assignment)?
    logical    -> equality (("and" | "or") equality)*
    equality   -> comparison (("==" | "!=") comparison)*
    comparison -> term (("<" | "<=" | ">" | ">=") term)*
    term       -> factor (("+" | "-") factor)*
    factor     -> unary (("*" | "/") unary)*
    unary      -> ("not" | "-") unary | primary
    primary    -> NUMBER | STRING | IDENTIFIER | "true" | "false" | "null" | "(" assignment ")"

Trees do not keep parentheses, the word `print` or separators, so a tree has many spellings. The
operators of a level are listed here (`Level.operators`) and not taken from the ranks that readings
go by; that the two agree is a lemma (`Level.rank?_of_mem_operators`).
-/

namespace Scriptlet

/-- The levels of the grammar of expressions, from the loosest to the tightest. -/
inductive Level where
  | assignment | logical | equality | comparison | term | factor | unary | primary
deriving DecidableEq, Repr

namespace Level

/-- The operators between the operands of a level that associates to the left. -/
def operators : Level → List Kind
  | logical => [.andWord, .orWord]
  | equality => [.equalEqual, .bangEqual]
  | comparison => [.less, .lessEqual, .greater, .greaterEqual]
  | term => [.plus, .minus]
  | factor => [.star, .slash]
  | assignment | unary | primary => []

/-- The next tighter level; there is none beyond `primary`. -/
def tighter : Level → Level
  | assignment => logical
  | logical => equality
  | equality => comparison
  | comparison => term
  | term => factor
  | factor => unary
  | unary | primary => primary

/-- The place of a level among the levels, the loosest at zero. -/
def rank : Level → Nat
  | assignment => 0
  | logical => 1
  | equality => 2
  | comparison => 3
  | term => 4
  | factor => 5
  | unary => 6
  | primary => 7

end Level

namespace Node

/-- The grammar derives an expression at a level. -/
inductive OfLevel : Level → Node → Prop
  | assignment {target value : Node} {op : Token} (equal : op.kind = .equal)
      (left : OfLevel .logical target) (right : OfLevel .assignment value) :
      OfLevel .assignment (.binary target op value)
  | operation {level : Level} {l r : Node} {op : Token} (mem : op.kind ∈ level.operators)
      (left : OfLevel level l) (right : OfLevel level.tighter r) :
      OfLevel level (.binary l op r)
  | sign {op : Token} {e : Node} (kind : op.kind = .notWord ∨ op.kind = .minus)
      (operand : OfLevel .unary e) : OfLevel .unary (.unary op e)
  | literal {t : Token}
      (mem : t.kind ∈ [Kind.number, .string, .identifier, .trueWord, .falseWord, .nullWord]) :
      OfLevel .primary (.literal t)
  | grouping {e : Node} (inner : OfLevel .assignment e) : OfLevel .primary (.grouping e)
  | ofTighter {level : Level} {e : Node} (tighter : OfLevel level.tighter e) : OfLevel level e

/-- The grammar derives a statement. -/
inductive Canonical : Node → Prop
  | expression {e : Node} (body : OfLevel .assignment e) : Canonical (.expression e)
  | print {e : Node} (body : OfLevel .assignment e) : Canonical (.print e)

/-- A token list spells a tree: the tokens of the tree in order, with parentheses around groupings
and the word `print` before what is printed. -/
inductive Spells : Node → List Token → Prop
  | literal (t : Token) : Spells (.literal t) [t]
  | grouping {e : Node} {ts : List Token} {opening closing : Token}
      (isOpening : opening.kind = .leftParen) (isClosing : closing.kind = .rightParen)
      (inner : Spells e ts) : Spells (.grouping e) (opening :: ts ++ [closing])
  | unary {op : Token} {e : Node} {ts : List Token} (operand : Spells e ts) :
      Spells (.unary op e) (op :: ts)
  | binary {l r : Node} {op : Token} {ls rs : List Token} (left : Spells l ls)
      (right : Spells r rs) : Spells (.binary l op r) (ls ++ op :: rs)
  | expression {e : Node} {ts : List Token} (body : Spells e ts) : Spells (.expression e) ts
  | print {e : Node} {word : Token} {ts : List Token} (isPrint : word.kind = .printWord)
      (body : Spells e ts) : Spells (.print e) (word :: ts)

/-- The nesting of a tree: parentheses weigh most; a prefix operator and the right-hand side of an
assignment weigh one. -/
def nesting : Node → Nat
  | literal _ => 0
  | grouping e => Reading.groupLoad + nesting e
  | unary _ e => 1 + nesting e
  | binary l op r => max (nesting l) (if op.kind = .equal then 1 + nesting r else nesting r)
  | expression e => nesting e
  | print e => nesting e
  | program _ => 0

end Node

/-- A token list spells the statements of a program: at least one separator between two of them, any
number of separators before the first and after the last. -/
inductive Writes : List Node → List Token → Prop
  | nil : Writes [] []
  | separator {t : Token} {statements : List Node} {ts : List Token}
      (kind : t.kind = .semicolon ∨ t.kind = .newline) (rest : Writes statements ts) :
      Writes statements (t :: ts)
  | last {s : Node} {ts : List Token} (spells : s.Spells ts) : Writes [s] ts
  | cons {s : Node} {ts : List Token} {t : Token} {statements : List Node} {more : List Token}
      (spells : s.Spells ts) (kind : t.kind = .semicolon ∨ t.kind = .newline)
      (rest : Writes statements more) : Writes (s :: statements) (ts ++ t :: more)

/-! ## Classes of kinds -/

namespace Kind

theorem isSeparator_of_rank? {k : Kind} {r : Nat} (h : k.rank? = some r) :
    k.isSeparator = false := by
  cases k <;> first | rfl | cases h

theorem rank?_le {k : Kind} {r : Nat} (h : k.rank? = some r) : r ≤ 5 := by
  cases k <;> cases h <;> decide

theorem isSeparator_of_isLiteral {k : Kind} (h : k.isLiteral = true) : k.isSeparator = false := by
  cases k <;> first | rfl | cases h

theorem isSeparator_of_isSign {k : Kind} (h : k.isSign = true) : k.isSeparator = false := by
  cases k <;> first | rfl | cases h

theorem isLiteral_of_isSign {k : Kind} (h : k.isSign = true) : k.isLiteral = false := by
  cases k <;> first | rfl | cases h

theorem isSeparator_iff {k : Kind} : k.isSeparator = true ↔ k = .semicolon ∨ k = .newline := by
  cases k <;> decide

theorem isSign_iff {k : Kind} : k.isSign = true ↔ k = .notWord ∨ k = .minus := by
  cases k <;> decide

theorem isLiteral_iff {k : Kind} :
    k.isLiteral = true ↔
      k ∈ [Kind.number, .string, .identifier, .trueWord, .falseWord, .nullWord] := by
  cases k <;> decide

end Kind

/-! ## Ranks on either side of an operator -/

namespace Reading

/-- The rank that the right-hand side of an operator binds at: assignment associates to the right,
the others to the left. The left-hand side binds at `settleBound`. -/
def rightRank (n : Nat) : Nat := if n = 0 then 0 else n + 1

theorem settleBound_settleBound (n : Nat) : settleBound (settleBound n) = settleBound n := by
  by_cases h : n = 0 <;> simp [settleBound, h]

theorem settleBound_mono {m n : Nat} (h : m ≤ n) : settleBound m ≤ settleBound n := by
  unfold settleBound
  split <;> split <;> omega

theorem le_rightRank (n : Nat) : n ≤ rightRank n := by
  unfold rightRank
  split <;> omega

theorem lt_settleBound_rightRank (n : Nat) : n < settleBound (rightRank n) := by
  unfold settleBound rightRank
  split <;> split <;> omega

theorem rightRank_le_six {n : Nat} (h : n ≤ 5) : rightRank n ≤ 6 := by
  unfold rightRank
  split <;> omega

theorem settleBound_le_six {n : Nat} (h : n ≤ 5) : settleBound n ≤ 6 := by
  unfold settleBound
  split <;> omega

theorem rightRank_le {m n : Nat} (h : m < settleBound n) : rightRank m ≤ n := by
  unfold settleBound at h
  unfold rightRank
  split at h <;> split <;> omega

theorem lt_of_lt_settleBound {m n bound : Nat} (h : m < settleBound n) (hn : n < bound) :
    m < bound := by
  unfold settleBound at h
  split at h <;> omega

end Reading

/-! ## Levels and ranks -/

namespace Level

theorem rank_le (level : Level) : level.rank ≤ 7 := by
  cases level <;> decide

theorem rank_tighter {level : Level} (h : level.rank < 7) :
    level.tighter.rank = level.rank + 1 := by
  cases level with
  | primary => exact absurd h (by decide)
  | _ => rfl

theorem rank_le_tighter (level : Level) : level.rank ≤ level.tighter.rank := by
  cases level <;> decide

theorem eq_of_rank_eq {level other : Level} (h : level.rank = other.rank) : level = other := by
  cases level <;> cases other <;> first | rfl | exact absurd h (by decide)

/-- The operators of a level have its rank, and it is neither the loosest nor among the tightest. -/
theorem rank?_of_mem_operators {level : Level} {k : Kind} (h : k ∈ level.operators) :
    k.rank? = some level.rank ∧ 0 < level.rank ∧ level.rank < 6 := by
  cases level <;> simp only [operators, List.mem_cons, List.not_mem_nil, or_false] at h
  all_goals rcases h with rfl | rfl | rfl | rfl <;> exact ⟨rfl, by decide, by decide⟩

/-- Every operator between operands is that of an assignment or of some level. -/
theorem exists_of_rank? {k : Kind} {r : Nat} (h : k.rank? = some r) :
    (k = .equal ∧ r = 0) ∨ ∃ level : Level, k ∈ level.operators ∧ level.rank = r := by
  have key : ∀ level : Level, k ∈ level.operators →
      (k = .equal ∧ r = 0) ∨ ∃ level : Level, k ∈ level.operators ∧ level.rank = r := by
    intro level hk
    have hr := (rank?_of_mem_operators hk).1
    rw [h, Option.some.injEq] at hr
    exact .inr ⟨level, hk, hr.symm⟩
  cases k with
  | equal => exact .inl ⟨rfl, (Option.some.inj h).symm⟩
  | andWord | orWord => exact key .logical (by decide)
  | equalEqual | bangEqual => exact key .equality (by decide)
  | less | lessEqual | greater | greaterEqual => exact key .comparison (by decide)
  | plus | minus => exact key .term (by decide)
  | star | slash => exact key .factor (by decide)
  | _ => cases h

end Level

namespace Node

/-- An expression of a level is one of every looser level. -/
theorem OfLevel.loosen {level looser : Level} {e : Node} (h : OfLevel level e)
    (hle : looser.rank ≤ level.rank) : OfLevel looser e := by
  -- the induction is on how far apart the levels are
  obtain ⟨n, hn⟩ := Nat.exists_eq_add_of_le hle
  induction n generalizing looser with
  | zero =>
    have heq : looser = level := Level.eq_of_rank_eq hn.symm
    rwa [heq]
  | succ n ih =>
    have hlt : looser.rank < 7 := by have := level.rank_le; omega
    have hnext := Level.rank_tighter hlt
    exact .ofTighter (ih (by omega) (by omega))

/-- The grammar derives an expression at a level of at least the given rank. -/
def BindsAt (r : Nat) (e : Node) : Prop := ∃ level : Level, r ≤ level.rank ∧ OfLevel level e

namespace BindsAt

theorem mono {r s : Nat} {e : Node} (h : BindsAt s e) (hle : r ≤ s) : BindsAt r e := by
  obtain ⟨level, hs, he⟩ := h
  exact ⟨level, Nat.le_trans hle hs, he⟩

theorem ofLevel (level : Level) {e : Node} (h : BindsAt level.rank e) : OfLevel level e := by
  obtain ⟨other, hle, he⟩ := h
  exact he.loosen hle

/-- Joins two operands by an operator of rank `r`. -/
theorem binary {l right : Node} {op : Token} {r : Nat} (hop : op.kind.rank? = some r)
    (hl : BindsAt (Reading.settleBound r) l) (hr : BindsAt (Reading.rightRank r) right) :
    BindsAt r (.binary l op right) := by
  rcases Level.exists_of_rank? hop with ⟨hequal, rfl⟩ | ⟨level, hmem, rfl⟩
  · exact ⟨.assignment, Nat.le_refl _,
      .assignment hequal (ofLevel .logical hl) (ofLevel .assignment hr)⟩
  · obtain ⟨-, hpos, hlt⟩ := Level.rank?_of_mem_operators hmem
    have hne : level.rank ≠ 0 := by omega
    simp only [Reading.settleBound, Reading.rightRank, hne, if_false] at hl hr
    rw [← Level.rank_tighter (by omega)] at hr
    exact ⟨level, Nat.le_refl _, .operation hmem (ofLevel _ hl) (ofLevel _ hr)⟩

theorem literal {t : Token} (h : t.kind.isLiteral = true) : BindsAt 6 (.literal t) := by
  exact ⟨.primary, by decide, .literal (Kind.isLiteral_iff.1 h)⟩

theorem sign {op : Token} {e : Node} (h : op.kind.isSign = true) (he : BindsAt 6 e) :
    BindsAt 6 (.unary op e) := by
  exact ⟨.unary, Nat.le_refl _, .sign (Kind.isSign_iff.1 h) (ofLevel .unary he)⟩

theorem grouping {e : Node} (he : BindsAt 0 e) : BindsAt 6 (.grouping e) :=
  ⟨.primary, by decide, .grouping (ofLevel .assignment he)⟩

end BindsAt

end Node

end Scriptlet
