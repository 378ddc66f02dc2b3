import Scriptlet.Proofs.FrontEnd.Statements
import Scriptlet.Proofs.Scanning.Atoms
import Scriptlet.Proofs.Syntax.Serialization

/-!
# The prefix form tells trees apart

Formatting writes a tree with its operators first and nothing escaped: the lexeme of a text can hold
blanks, quotes and parentheses, a minus sign stands before one operand or before two, and `group` and
`print` could be names. Still a tree of the recovering front end can be read off its prefix form, up
to the lines of its tokens (`FrontEnd.withoutLines_eq_of_format_eq`).

The argument is that of unique readability. Each lexeme was cut from a source text, so it is cut
again wherever a blank, a parenthesis that closes or nothing follows it, and the characters tell
which lexeme that is and of which kind (`Piece.Maximal.eq_of_append_eq`). The prefix form of an
expression is never followed by anything else, so by induction on the tree the characters tell where
the expression ends and what it is (`Node.Legible.eq_of_append_eq`).
-/

namespace Scriptlet

open Lexeme (Delimited delimited_nil delimited_blank delimited_closing)

theorem Kind.isLiteral_of_rank? {k : Kind} (h : k.rank?.isSome = true) : k.isLiteral = false := by
  cases k <;> first | rfl | cases h

namespace Token

/-- The token without its line. -/
def withoutLine (t : Token) : Token := { t with line := 0 }

/-- A source text can be cut so that the token is one of its pieces. -/
def IsCut (t : Token) : Prop := ∃ next, Piece.Maximal next ⟨.token t.kind, t.lexeme.toList⟩

/-- A lexeme is cut again where it is delimited. -/
theorem IsCut.maximal {t : Token} (h : t.IsCut) {next : List Char} (hnext : Delimited next) :
    Piece.Maximal next ⟨.token t.kind, t.lexeme.toList⟩ := by
  obtain ⟨before, hmaximal⟩ := h
  exact hmaximal.delimited rfl hnext

/-- Tokens whose lexemes start the same characters and are delimited there differ in their lines
only. -/
theorem IsCut.eq_of_append_eq {t u : Token} (ht : t.IsCut) (hu : u.IsCut) {next next' : List Char}
    (hnext : Delimited next) (hnext' : Delimited next')
    (h : t.lexeme.toList ++ next = u.lexeme.toList ++ next') :
    t.withoutLine = u.withoutLine ∧ next = next' := by
  obtain ⟨hpiece, hrest⟩ := (ht.maximal hnext).eq_of_append_eq (hu.maximal hnext') h
  obtain ⟨hrole, htext⟩ := Piece.mk.inj hpiece
  refine ⟨?_, hrest⟩
  rw [withoutLine, withoutLine, Role.token.inj hrole, String.toList_injective htext]

theorem IsCut.of_atomic {t : Token} (h : Scan.Atomic t.kind t.lexeme) : t.IsCut :=
  h.tiles.exists_maximal List.mem_cons_self

/-- The lexeme of a literal does not start with a parenthesis. -/
theorem IsCut.append_ne_opening {t : Token} (h : t.IsCut) (hkind : t.kind.isLiteral = true)
    {next : List Char} (hnext : Delimited next) (cs : List Char) :
    t.lexeme.toList ++ next ≠ '(' :: cs := by
  intro heq
  have hopening : Piece.Maximal cs ⟨.token .leftParen, ['(']⟩ := .mark (by decide)
  obtain ⟨hpiece, -⟩ := (h.maximal hnext).eq_of_append_eq hopening heq
  rw [Role.token.inj (Piece.mk.inj hpiece).1] at hkind
  cases hkind

/-- The word that stands before a group. -/
def groupWord : Token := ⟨.identifier, "group", 0⟩

/-- The word that stands before what is printed. -/
def printWord : Token := ⟨.printWord, "print", 0⟩

theorem isCut_groupWord : groupWord.IsCut := .of_atomic (by decide +kernel)

theorem isCut_printWord : printWord.IsCut := .of_atomic (by decide +kernel)

end Token

namespace Node

/-- The tree without the lines of its tokens. -/
def withoutLines (n : Node) : Node := n.mapTokens Token.withoutLine

theorem withoutLines_unary (op : Token) (e : Node) :
    (unary op e).withoutLines = .unary op.withoutLine e.withoutLines := rfl

theorem withoutLines_binary (l : Node) (op : Token) (r : Node) :
    (binary l op r).withoutLines = .binary l.withoutLines op.withoutLine r.withoutLines := rfl

/-- The characters of the prefix form, however deep the tree is. -/
def prefixForm : Node → List Char
  | literal t => t.lexeme.toList
  | grouping e => '(' :: (Token.groupWord.lexeme.toList ++ ' ' :: (prefixForm e ++ [')']))
  | unary op e => '(' :: (op.lexeme.toList ++ ' ' :: (prefixForm e ++ [')']))
  | binary l op r =>
      '(' :: (op.lexeme.toList ++ ' ' :: (prefixForm l ++ ' ' :: (prefixForm r ++ [')'])))
  | expression e => prefixForm e
  | print e => Token.printWord.lexeme.toList ++ ' ' :: prefixForm e
  | program _ => []

/-- Where formatting gives a text, it is the prefix form. -/
theorem toList_of_format : ∀ {levels : Nat} {n : Node} {text : String},
    n.format levels = .ok text → text.toList = n.prefixForm
  | 0, _, _, h => by cases h
  | _ + 1, literal t, _, h => by
    cases h
    rfl
  | levels + 1, grouping e, _, h => by
    obtain ⟨inner, hinner, h⟩ := exists_of_bind_eq_ok h
    cases h
    simp [prefixForm, Token.groupWord, toList_of_format hinner]
  | levels + 1, unary op e, _, h => by
    obtain ⟨operand, hoperand, h⟩ := exists_of_bind_eq_ok h
    cases h
    simp [prefixForm, toList_of_format hoperand]
  | levels + 1, binary l op r, _, h => by
    obtain ⟨left, hleft, h⟩ := exists_of_bind_eq_ok h
    obtain ⟨right, hright, h⟩ := exists_of_bind_eq_ok h
    cases h
    simp [prefixForm, toList_of_format hleft, toList_of_format hright]
  | levels + 1, expression e, _, h => by
    have hbody : e.format levels = .ok _ := h
    simpa [prefixForm] using toList_of_format hbody
  | levels + 1, print e, _, h => by
    obtain ⟨body, hbody, h⟩ := exists_of_bind_eq_ok h
    cases h
    simp [prefixForm, Token.printWord, toList_of_format hbody]
  | _ + 1, program body, _, h => by cases h

/-! ## Expressions -/

/-- Expressions whose lexemes were cut from a source text, with no literal for an operator. -/
inductive Legible : Node → Prop
  | literal {t : Token} (kind : t.kind.isLiteral = true) (cut : t.IsCut) : Legible (.literal t)
  | grouping {e : Node} (inner : Legible e) : Legible (.grouping e)
  | unary {op : Token} {e : Node} (kind : op.kind.isLiteral = false) (cut : op.IsCut)
      (operand : Legible e) : Legible (.unary op e)
  | binary {l r : Node} {op : Token} (kind : op.kind.isLiteral = false) (cut : op.IsCut)
      (left : Legible l) (right : Legible r) : Legible (.binary l op r)

theorem Computable.legible {e : Node} (h : e.Computable) (hcut : ∀ t ∈ e.tokens, t.IsCut) :
    e.Legible := by
  induction h with
  | literal kind => exact .literal kind (hcut _ List.mem_cons_self)
  | grouping _ ih => exact .grouping (ih hcut)
  | unary sign _ ih =>
    obtain ⟨hop, hoperand⟩ := List.forall_mem_cons.1 hcut
    exact .unary (Kind.isLiteral_of_isSign sign) hop (ih hoperand)
  | binary operator _ _ ihl ihr =>
    obtain ⟨hleft, hright⟩ := List.forall_mem_append.1 hcut
    obtain ⟨hop, hright⟩ := List.forall_mem_cons.1 hright
    exact .binary (Kind.isLiteral_of_rank? operator) hop (ihl hleft) (ihr hright)

section Appended

variable (next : List Char)

theorem prefixForm_grouping_append (e : Node) :
    (grouping e).prefixForm ++ next =
      '(' :: (Token.groupWord.lexeme.toList ++ ' ' :: (e.prefixForm ++ ')' :: next)) := by
  simp [prefixForm]

theorem prefixForm_unary_append (op : Token) (e : Node) :
    (unary op e).prefixForm ++ next =
      '(' :: (op.lexeme.toList ++ ' ' :: (e.prefixForm ++ ')' :: next)) := by
  simp [prefixForm]

theorem prefixForm_binary_append (l : Node) (op : Token) (r : Node) :
    (binary l op r).prefixForm ++ next =
      '(' :: (op.lexeme.toList ++ ' ' ::
        (l.prefixForm ++ ' ' :: (r.prefixForm ++ ')' :: next))) := by
  simp [prefixForm]

end Appended

/-- After a parenthesis that opens, the word or the operator is known, and what follows it. -/
theorem heads_eq {t u : Token} (ht : t.IsCut) (hu : u.IsCut) {cs cs' : List Char}
    (h : '(' :: (t.lexeme.toList ++ ' ' :: cs) = '(' :: (u.lexeme.toList ++ ' ' :: cs')) :
    t.withoutLine = u.withoutLine ∧ cs = cs' := by
  obtain ⟨hhead, hrest⟩ := ht.eq_of_append_eq hu (delimited_blank cs) (delimited_blank cs')
    (List.cons.inj h).2
  exact ⟨hhead, (List.cons.inj hrest).2⟩

/-- An operator is not taken for the word of a group. -/
theorem heads_ne {op : Token} (hcut : op.IsCut) (hkind : op.kind.isLiteral = false)
    (cs cs' : List Char) :
    '(' :: (op.lexeme.toList ++ ' ' :: cs) ≠
      '(' :: (Token.groupWord.lexeme.toList ++ ' ' :: cs') := by
  intro heq
  obtain ⟨hhead, -⟩ := heads_eq hcut Token.isCut_groupWord heq
  rw [show op.kind = .identifier from congrArg Token.kind hhead] at hkind
  cases hkind

/-- The prefix form of an expression can be read off any characters that it starts, if it is
delimited there. -/
theorem Legible.eq_of_append_eq {e : Node} (h : e.Legible) :
    ∀ {e' : Node} {next next' : List Char}, e'.Legible → Delimited next → Delimited next' →
      e.prefixForm ++ next = e'.prefixForm ++ next' →
      e.withoutLines = e'.withoutLines ∧ next = next' := by
  induction h with
  | @literal t kind cut =>
    intro e' next next' h' hnext hnext' heq
    cases h' with
    | literal _ cut' =>
      obtain ⟨htoken, hrest⟩ := cut.eq_of_append_eq cut' hnext hnext' heq
      exact ⟨congrArg Node.literal htoken, hrest⟩
    | grouping | unary | binary => exact absurd heq (cut.append_ne_opening kind hnext _)
  | @grouping e _ ih =>
    intro e' next next' h' hnext hnext' heq
    rw [prefixForm_grouping_append] at heq
    cases h' with
    | literal kind' cut' => exact absurd heq.symm (cut'.append_ne_opening kind' hnext' _)
    | grouping inner' =>
      rw [prefixForm_grouping_append] at heq
      obtain ⟨-, hrest⟩ := heads_eq Token.isCut_groupWord Token.isCut_groupWord heq
      obtain ⟨hinner, hrest⟩ := ih inner' (delimited_closing _) (delimited_closing _) hrest
      exact ⟨congrArg Node.grouping hinner, (List.cons.inj hrest).2⟩
    | unary kind' cut' =>
      rw [prefixForm_unary_append] at heq
      exact absurd heq.symm (heads_ne cut' kind' _ _)
    | binary kind' cut' =>
      rw [prefixForm_binary_append] at heq
      exact absurd heq.symm (heads_ne cut' kind' _ _)
  | @unary op e kind cut _ ih =>
    intro e' next next' h' hnext hnext' heq
    rw [prefixForm_unary_append] at heq
    cases h' with
    | literal kind' cut' => exact absurd heq.symm (cut'.append_ne_opening kind' hnext' _)
    | grouping inner' =>
      rw [prefixForm_grouping_append] at heq
      exact absurd heq (heads_ne cut kind _ _)
    | unary _ cut' operand' =>
      rw [prefixForm_unary_append] at heq
      obtain ⟨hhead, hrest⟩ := heads_eq cut cut' heq
      obtain ⟨hoperand, hrest⟩ := ih operand' (delimited_closing _) (delimited_closing _) hrest
      refine ⟨?_, (List.cons.inj hrest).2⟩
      rw [withoutLines_unary, withoutLines_unary, hhead, hoperand]
    | binary _ cut' left' =>
      -- the same operator, but a blank and not a parenthesis after the first operand
      rw [prefixForm_binary_append] at heq
      obtain ⟨-, hrest⟩ := heads_eq cut cut' heq
      obtain ⟨-, hrest⟩ := ih left' (delimited_closing _) (delimited_blank _) hrest
      exact absurd (List.cons.inj hrest).1 (by decide)
  | @binary l r op kind cut _ _ ihl ihr =>
    intro e' next next' h' hnext hnext' heq
    rw [prefixForm_binary_append] at heq
    cases h' with
    | literal kind' cut' => exact absurd heq.symm (cut'.append_ne_opening kind' hnext' _)
    | grouping inner' =>
      rw [prefixForm_grouping_append] at heq
      exact absurd heq (heads_ne cut kind _ _)
    | unary _ cut' operand' =>
      rw [prefixForm_unary_append] at heq
      obtain ⟨-, hrest⟩ := heads_eq cut cut' heq
      obtain ⟨-, hrest⟩ := ihl operand' (delimited_blank _) (delimited_closing _) hrest
      exact absurd (List.cons.inj hrest).1 (by decide)
    | binary _ cut' left' right' =>
      rw [prefixForm_binary_append] at heq
      obtain ⟨hhead, hrest⟩ := heads_eq cut cut' heq
      obtain ⟨hleft, hrest⟩ := ihl left' (delimited_blank _) (delimited_blank _) hrest
      obtain ⟨hright, hrest⟩ := ihr right' (delimited_closing _) (delimited_closing _)
        (List.cons.inj hrest).2
      refine ⟨?_, (List.cons.inj hrest).2⟩
      rw [withoutLines_binary, withoutLines_binary, hhead, hleft, hright]

theorem Legible.withoutLines_eq {e e' : Node} (h : e.Legible) (h' : e'.Legible)
    (heq : e.prefixForm = e'.prefixForm) : e.withoutLines = e'.withoutLines := by
  have happend : e.prefixForm ++ [] = e'.prefixForm ++ [] := by rw [heq]
  exact (h.eq_of_append_eq h' delimited_nil delimited_nil happend).1

/-! ## Statements -/

/-- An expression does not start with the word `print`. -/
theorem Legible.prefixForm_ne_print {e : Node} (h : e.Legible) (body : Node) :
    e.prefixForm ≠ (print body).prefixForm := by
  intro heq
  cases h with
  | @literal t kind cut =>
    have happend : t.lexeme.toList ++ [] =
        Token.printWord.lexeme.toList ++ ' ' :: body.prefixForm := by
      rw [List.append_nil]
      exact heq
    obtain ⟨htoken, -⟩ := cut.eq_of_append_eq Token.isCut_printWord delimited_nil
      (delimited_blank _) happend
    rw [show t.kind = .printWord from congrArg Token.kind htoken] at kind
    cases kind
  | grouping | unary | binary => cases heq

/-- Statements that can be run are told apart by their prefix form. -/
theorem Runnable.withoutLines_eq {s s' : Node} (h : s.Runnable) (h' : s'.Runnable)
    (hcut : ∀ t ∈ s.tokens, t.IsCut) (hcut' : ∀ t ∈ s'.tokens, t.IsCut)
    (heq : s.prefixForm = s'.prefixForm) : s.withoutLines = s'.withoutLines := by
  cases h with
  | expression body =>
    have hlegible := body.legible hcut
    cases h' with
    | expression body' =>
      exact congrArg Node.expression (hlegible.withoutLines_eq (body'.legible hcut') heq)
    | print body' => exact absurd heq (hlegible.prefixForm_ne_print _)
  | print body =>
    cases h' with
    | expression body' => exact absurd heq.symm ((body'.legible hcut').prefixForm_ne_print _)
    | print body' =>
      have hbody := (List.cons.inj (List.append_cancel_left heq)).2
      exact congrArg Node.print ((body.legible hcut).withoutLines_eq (body'.legible hcut') hbody)

end Node

namespace FrontEnd

theorem isCut_of_mem_parse {source : String} {s : Node}
    (h : s ∈ (parse source .descent).statements) {t : Token} (ht : t ∈ s.tokens) : t.IsCut := by
  obtain ⟨-, us, hspells, hsub⟩ := Recovering.exists_spells_of_mem_read h
  obtain ⟨c, rest, n, hextent, hlexeme⟩ :=
    Scan.exists_extent_of_mem (hsub t (hspells.mem_of_mem_tokens ht))
  refine ⟨rest.drop n, ?_⟩
  rw [hlexeme, String.toList_ofList]
  exact Piece.maximal_of_extent hextent

/-- **The prefix form identifies a statement.** If two statements that the descent front end builds
from any two source texts are formatted as the same text, they are the same statement up to the
lines of their tokens: of the same form, with the same nodes and with the same kinds and lexemes. -/
theorem withoutLines_eq_of_format_eq {source source' text : String} {s s' : Node}
    {levels levels' : Nat} (h : s ∈ (parse source .descent).statements)
    (h' : s' ∈ (parse source' .descent).statements) (hformat : s.format levels = .ok text)
    (hformat' : s'.format levels' = .ok text) : s.withoutLines = s'.withoutLines := by
  have heq : s.prefixForm = s'.prefixForm :=
    (Node.toList_of_format hformat).symm.trans (Node.toList_of_format hformat')
  exact (runnable_of_mem_parse h).withoutLines_eq (runnable_of_mem_parse h')
    (fun _ ht => isCut_of_mem_parse h ht) (fun _ ht => isCut_of_mem_parse h' ht) heq

/-- A minus sign before one operand and before two, a text with a quote, blanks and parentheses, and
a name that is the word of a group. The two source texts have them on different lines. -/
theorem withoutLines_eq_of_format_eq_minus_signs :
    let source := "print -\"a )\"\" (\" - (group)"
    let source' := "\nprint - \"a )\"\" (\"-( group )"
    let text := "print (- (- \"a )\"\" (\") (group group))"
    let statement := fun line : Int => Node.print (.binary
      (.unary ⟨.minus, "-", line⟩ (.literal ⟨.string, "\"a )\"\" (\"", line⟩))
      ⟨.minus, "-", line⟩ (.grouping (.literal ⟨.identifier, "group", line⟩)))
    statement 1 ∈ (parse source .descent).statements ∧
      statement 2 ∈ (parse source' .descent).statements ∧
      (statement 1).format Node.depthLimit = .ok text ∧
      (statement 2).format Node.depthLimit = .ok text ∧
      (statement 1).withoutLines = (statement 2).withoutLines := by
  intro source source' text statement
  let tokens := fun line : Int => ([⟨.printWord, "print", line⟩, ⟨.minus, "-", line⟩,
    ⟨.string, "\"a )\"\" (\"", line⟩, ⟨.minus, "-", line⟩, ⟨.leftParen, "(", line⟩,
    ⟨.identifier, "group", line⟩, ⟨.rightParen, ")", line⟩] : List Token)
  have hbody : (Scan.ofSource source).body = tokens 1 := by decide +kernel
  have hbody' : (Scan.ofSource source').body = ⟨.newline, "\n", 1⟩ :: tokens 2 := by decide +kernel
  have h : (parse source .descent).statements = [statement 1] := by
    rw [parse, Recovering.ofScan, hbody]
    rfl
  have h' : (parse source' .descent).statements = [statement 2] := by
    rw [parse, Recovering.ofScan, hbody']
    rfl
  have hmem : statement 1 ∈ (parse source .descent).statements := by
    rw [h]
    exact List.mem_cons_self
  have hmem' : statement 2 ∈ (parse source' .descent).statements := by
    rw [h']
    exact List.mem_cons_self
  have hformat : (statement 1).format Node.depthLimit = .ok text := rfl
  have hformat' : (statement 2).format Node.depthLimit = .ok text := rfl
  exact ⟨hmem, hmem', hformat, hformat', withoutLines_eq_of_format_eq hmem hmem' hformat hformat'⟩

end FrontEnd

end Scriptlet
