import Scriptlet.FrontEnd.Parsed
import Scriptlet.Proofs.Syntax.Grammar

/-!
# Trees with other tokens

A tree in which every token is replaced (`Node.mapTokens`); which tree it becomes depends on its own
tokens only (`Node.mapTokens_congr`). If the replacement keeps the kinds of tokens, the grammar
cannot tell the difference: a program with its tokens replaced is spelled by the replaced tokens
(`Writes.mapTokens`). The front ends put a token that spans lines on different lines, so this is how
their trees are compared. Nor can readings tell: what a replaced token does to a replaced reading is
what the token does to the reading, replaced (`Reading.step_mapTokens`).
-/

namespace Scriptlet

namespace Node

mutual

/-- A tree with its tokens replaced. -/
def mapTokens (f : Token → Token) : Node → Node
  | literal t => literal (f t)
  | grouping e => grouping (mapTokens f e)
  | unary op e => unary (f op) (mapTokens f e)
  | binary l op r => binary (mapTokens f l) (f op) (mapTokens f r)
  | expression e => expression (mapTokens f e)
  | print e => print (mapTokens f e)
  | program body => program (mapAllTokens f body)

/-- Trees with their tokens replaced. -/
def mapAllTokens (f : Token → Token) : List Node → List Node
  | [] => []
  | n :: rest => mapTokens f n :: mapAllTokens f rest

end

mutual

/-- The tokens that a tree keeps. -/
def tokens : Node → List Token
  | literal t => [t]
  | grouping e => tokens e
  | unary op e => op :: tokens e
  | binary l op r => tokens l ++ op :: tokens r
  | expression e => tokens e
  | print e => tokens e
  | program body => allTokens body

/-- The tokens that trees keep. -/
def allTokens : List Node → List Token
  | [] => []
  | n :: rest => tokens n ++ allTokens rest

end

mutual

/-- Replacements that agree on the tokens of a tree make the same tree. -/
theorem mapTokens_congr {f g : Token → Token} :
    ∀ {n : Node}, (∀ t ∈ n.tokens, f t = g t) → n.mapTokens f = n.mapTokens g
  | literal t, h => congrArg literal (h t List.mem_cons_self)
  | grouping e, h => congrArg grouping (mapTokens_congr h)
  | unary op e, h => by
    have hop : f op = g op := h op List.mem_cons_self
    have he : e.mapTokens f = e.mapTokens g :=
      mapTokens_congr fun t ht => h t (List.mem_cons_of_mem _ ht)
    rw [mapTokens, mapTokens, hop, he]
  | binary l op r, h => by
    have hl : l.mapTokens f = l.mapTokens g :=
      mapTokens_congr fun t ht => h t (List.mem_append_left _ ht)
    have hop : f op = g op := h op (List.mem_append_right _ List.mem_cons_self)
    have hr : r.mapTokens f = r.mapTokens g :=
      mapTokens_congr fun t ht => h t (List.mem_append_right _ (List.mem_cons_of_mem _ ht))
    rw [mapTokens, mapTokens, hl, hop, hr]
  | expression e, h => congrArg expression (mapTokens_congr h)
  | print e, h => congrArg print (mapTokens_congr h)
  | program body, h => congrArg program (mapAllTokens_congr h)

theorem mapAllTokens_congr {f g : Token → Token} :
    ∀ {body : List Node}, (∀ t ∈ allTokens body, f t = g t) →
      mapAllTokens f body = mapAllTokens g body
  | [], _ => rfl
  | n :: rest, h => by
    have hn : n.mapTokens f = n.mapTokens g :=
      mapTokens_congr fun t ht => h t (List.mem_append_left _ ht)
    have hrest : mapAllTokens f rest = mapAllTokens g rest :=
      mapAllTokens_congr fun t ht => h t (List.mem_append_right _ ht)
    rw [mapAllTokens, mapAllTokens, hn, hrest]

end

mutual

/-- If one replacement takes back what another does, it gives back the tree. -/
theorem mapTokens_leftInverse {f g : Token → Token} (h : ∀ t, f (g t) = t) :
    ∀ n : Node, (n.mapTokens g).mapTokens f = n
  | literal t => congrArg literal (h t)
  | grouping e => congrArg grouping (mapTokens_leftInverse h e)
  | unary op e => by
    rw [mapTokens, mapTokens, h op, mapTokens_leftInverse h e]
  | binary l op r => by
    rw [mapTokens, mapTokens, mapTokens_leftInverse h l, h op, mapTokens_leftInverse h r]
  | expression e => congrArg expression (mapTokens_leftInverse h e)
  | print e => congrArg print (mapTokens_leftInverse h e)
  | program body => congrArg program (mapAllTokens_leftInverse h body)

theorem mapAllTokens_leftInverse {f g : Token → Token} (h : ∀ t, f (g t) = t) :
    ∀ body : List Node, mapAllTokens f (mapAllTokens g body) = body
  | [] => rfl
  | n :: rest => by
    rw [mapAllTokens, mapAllTokens, mapTokens_leftInverse h n, mapAllTokens_leftInverse h rest]

end

theorem mapTokens_ofExpression (f : Token → Token) (printing : Bool) (e : Node) :
    (ofExpression printing e).mapTokens f = ofExpression printing (e.mapTokens f) := by
  cases printing <;> rfl

end Node

/-! ## The grammar -/

section Grammar

variable {f : Token → Token} (hf : ∀ t, (f t).kind = t.kind)

include hf

theorem Node.Spells.mapTokens {n : Node} {ts : List Token} (h : n.Spells ts) :
    (n.mapTokens f).Spells (ts.map f) := by
  induction h with
  | literal t => exact .literal (f t)
  | @grouping e ts opening closing isOpening isClosing _ ih =>
    rw [List.map_append, List.map_cons]
    exact .grouping (by rw [hf, isOpening]) (by rw [hf, isClosing]) ih
  | unary _ ih => exact .unary ih
  | binary _ _ ihl ihr =>
    rw [List.map_append, List.map_cons]
    exact .binary ihl ihr
  | expression _ ih => exact .expression ih
  | print isPrint _ ih => exact .print (by rw [hf, isPrint]) ih

theorem Node.OfLevel.mapTokens {level : Level} {e : Node} (h : e.OfLevel level) :
    (e.mapTokens f).OfLevel level := by
  induction h with
  | assignment equal _ _ ihl ihr => exact .assignment (by rw [hf, equal]) ihl ihr
  | operation mem _ _ ihl ihr => exact .operation (by rwa [hf]) ihl ihr
  | sign kind _ ih => exact .sign (by rwa [hf]) ih
  | literal mem => exact .literal (by rwa [hf])
  | grouping _ ih => exact .grouping ih
  | ofTighter _ ih => exact .ofTighter ih

theorem Node.Canonical.mapTokens {s : Node} (h : s.Canonical) : (s.mapTokens f).Canonical := by
  cases h with
  | expression he => exact .expression (he.mapTokens hf)
  | print he => exact .print (he.mapTokens hf)

/-- The replaced tokens spell the program with its tokens replaced. -/
theorem Writes.mapTokens {statements : List Node} {ts : List Token} (h : Writes statements ts) :
    Writes (statements.map (Node.mapTokens f)) (ts.map f) := by
  induction h with
  | nil => exact .nil
  | separator kind _ ih => exact .separator (by rwa [hf]) ih
  | last spells => exact .last (spells.mapTokens hf)
  | cons spells kind _ ih =>
    rw [List.map_append, List.map_cons]
    exact .cons (spells.mapTokens hf) (by rwa [hf]) ih

end Grammar

/-! ## Operands that wait -/

namespace Waiting

/-- A waiting operand with its tokens replaced. -/
def mapTokens (f : Token → Token) (w : Waiting) : Waiting := ⟨w.left.mapTokens f, f w.operator⟩

variable {f : Token → Token} (hf : ∀ t, (f t).kind = t.kind)

include hf in
theorem rank_mapTokens (w : Waiting) : (w.mapTokens f).rank = w.rank := by
  simp only [rank, mapTokens, hf]

theorem settleAll_mapTokens (f : Token → Token) (waiting : List Waiting) (operand : Node) :
    settleAll (waiting.map (mapTokens f)) (operand.mapTokens f) =
      (settleAll waiting operand).mapTokens f := by
  induction waiting generalizing operand with
  | nil => rfl
  | cons w rest ih => exact ih (.binary w.left w.operator operand)

include hf in
theorem settle_mapTokens (bound : Nat) (waiting : List Waiting) (operand : Node) :
    settle bound (waiting.map (mapTokens f)) (operand.mapTokens f) =
      ((settle bound waiting operand).1.map (mapTokens f),
        (settle bound waiting operand).2.mapTokens f) := by
  induction waiting generalizing operand with
  | nil => rfl
  | cons w rest ih =>
    simp only [List.map_cons, settle, rank_mapTokens hf]
    split
    · exact ih (.binary w.left w.operator operand)
    · rfl

end Waiting

/-! ## Readings -/

namespace Pending

/-- A pending expression with its tokens replaced. -/
def mapTokens (f : Token → Token) (p : Pending) : Pending :=
  ⟨p.waiting.map (Waiting.mapTokens f), p.signs.map f⟩

theorem applySigns_mapTokens (f : Token → Token) (p : Pending) (operand : Node) :
    (p.mapTokens f).applySigns (operand.mapTokens f) = (p.applySigns operand).mapTokens f := by
  obtain ⟨waiting, signs⟩ := p
  simp only [applySigns, mapTokens]
  induction signs generalizing operand with
  | nil => rfl
  | cons sign signs ih => exact ih (.unary sign operand)

end Pending

namespace Reading

/-- A reading with its tokens replaced. -/
def mapTokens (f : Token → Token) : Reading → Reading
  | wanting outer inner => wanting (outer.map (Pending.mapTokens f)) (inner.mapTokens f)
  | holding outer waiting operand =>
      holding (outer.map (Pending.mapTokens f)) (waiting.map (Waiting.mapTokens f))
        (operand.mapTokens f)

variable {f : Token → Token} (hf : ∀ t, (f t).kind = t.kind)

include hf in
theorem step_mapTokens (r : Reading) (t : Token) :
    (r.mapTokens f).step (f t) = (r.step t).map (mapTokens f) := by
  cases r with
  | wanting outer inner =>
    simp only [mapTokens, step, hf]
    split
    · have := Pending.applySigns_mapTokens f inner (.literal t)
      simp only [Option.map_some, mapTokens, ← this]
      rfl
    split
    · rfl
    split <;> rfl
  | holding outer waiting operand =>
    simp only [mapTokens, step, hf, Waiting.settle_mapTokens hf]
    cases hrank : t.kind.rank? with
    | some n => rfl
    | none =>
      cases outer with
      | nil => cases t.kind <;> rfl
      | cons p outer =>
        have := Pending.applySigns_mapTokens f p (.grouping (Waiting.settleAll waiting operand))
        rw [Node.mapTokens, ← Waiting.settleAll_mapTokens] at this
        cases hk : t.kind with
        | rightParen =>
          simp only [List.map_cons, Option.map_some, mapTokens, ← this]
          rfl
        | _ => rfl

theorem finished?_mapTokens (f : Token → Token) (r : Reading) :
    (r.mapTokens f).finished? = r.finished?.map (Node.mapTokens f) := by
  cases r with
  | wanting outer inner => rfl
  | holding outer waiting operand =>
    cases outer with
    | nil =>
      simp only [mapTokens, List.map_nil, finished?, Waiting.settleAll_mapTokens, Option.map_some]
    | cons p outer => rfl

end Reading

end Scriptlet
