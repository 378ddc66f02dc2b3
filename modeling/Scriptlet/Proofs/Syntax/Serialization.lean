import Scriptlet.Node.Json
import Scriptlet.Proofs.Json.RoundTrip
import Scriptlet.Proofs.Running.Faults
import Scriptlet.Proofs.Syntax.Relabelling

/-!
# Trees that were written and read back

A tree that is no deeper than the levels of a walk is written as `Node.json` and read back as itself
(`Node.toJson_of_depth_le`, `Node.ofJson_json`): every kind, text and line is kept. Reading takes
many other JSON values too, since it passes over fields that it does not know and does not ask
whether a node is in place. But each level of a tree takes a level of reading
(`Node.depth_le_of_ofJson`), so what was read can be written and is then read as the same tree
(`Node.trees_read_back`).

The JSON value is one level deeper than the tree, since tokens are objects too, and that of a
program has one more level for the array of its statements (`Node.readable_json_program`).
-/

namespace Scriptlet

theorem exists_of_bind_eq_ok {ε α β : Type} {x : Except ε α} {f : α → Except ε β} {b : β}
    (h : x >>= f = .ok b) : ∃ a, x = .ok a ∧ f a = .ok b := by
  cases x with
  | error e => cases h
  | ok a => exact ⟨a, rfl, h⟩

namespace Node

mutual

/-- The levels of a tree. -/
def depth : Node → Nat
  | literal _ => 1
  | grouping e => depth e + 1
  | unary _ e => depth e + 1
  | binary l _ r => max (depth l) (depth r) + 1
  | expression e => depth e + 1
  | print e => depth e + 1
  | program body => depthAll body + 1

/-- The levels of the deepest tree. -/
def depthAll : List Node → Nat
  | [] => 0
  | n :: rest => max (depth n) (depthAll rest)

end

mutual

/-- A tree as JSON, however deep it is. -/
def json : Node → Json
  | literal t => .obj [("type", .str "Literal"), ("token", t.toJson)]
  | grouping e => .obj [("type", .str "Grouping"), ("expression", json e)]
  | unary op e =>
      .obj [("type", .str "Unary"), ("operator", op.toJson), ("operand", json e)]
  | binary l op r =>
      .obj [("type", .str "Binary"), ("left", json l), ("operator", op.toJson), ("right", json r)]
  | expression e => .obj [("type", .str "ExpressionStmt"), ("expression", json e)]
  | print e => .obj [("type", .str "PrintStmt"), ("expression", json e)]
  | program body => .obj [("type", .str "Program"), ("body", .arr (jsonAll body))]

/-- Trees as JSON. -/
def jsonAll : List Node → List Json
  | [] => []
  | n :: rest => json n :: jsonAll rest

end

mutual

theorem toJson_of_depth_le : ∀ {levels : Nat} (n : Node), n.depth ≤ levels →
    n.toJson levels = .ok n.json
  | 0, n, h => by
    cases n <;> simp [depth] at h
  | levels + 1, literal t, _ => rfl
  | levels + 1, grouping e, h => by
    rw [toJson, toJson_of_depth_le e (Nat.le_of_succ_le_succ h)]
    rfl
  | levels + 1, unary op e, h => by
    rw [toJson, toJson_of_depth_le e (Nat.le_of_succ_le_succ h)]
    rfl
  | levels + 1, binary l op r, h => by
    obtain ⟨hl, hr⟩ := Nat.max_le.1 (Nat.le_of_succ_le_succ h)
    rw [toJson, toJson_of_depth_le l hl, toJson_of_depth_le r hr]
    rfl
  | levels + 1, expression e, h => by
    rw [toJson, toJson_of_depth_le e (Nat.le_of_succ_le_succ h)]
    rfl
  | levels + 1, print e, h => by
    rw [toJson, toJson_of_depth_le e (Nat.le_of_succ_le_succ h)]
    rfl
  | levels + 1, program body, h => by
    rw [toJson, toJsonAll_of_depthAll_le body (Nat.le_of_succ_le_succ h)]
    rfl

theorem toJsonAll_of_depthAll_le : ∀ {levels : Nat} (body : List Node), depthAll body ≤ levels →
    toJsonAll levels body = .ok (jsonAll body)
  | _, [], _ => by
    rw [toJsonAll]
    rfl
  | _, n :: rest, h => by
    obtain ⟨hn, hrest⟩ := Nat.max_le.1 h
    rw [toJsonAll, toJson_of_depth_le n hn, toJsonAll_of_depthAll_le rest hrest]
    rfl

end

mutual

/-- A tree is read back as it was. -/
theorem ofJson_json : ∀ {levels : Nat} (n : Node), n.depth ≤ levels → ofJson levels n.json = .ok n
  | 0, n, h => by
    cases n <;> simp [depth] at h
  | levels + 1, literal t, _ => by
    simp [json, ofJson, Json.field?, Json.findField, Json.require, Token.ofJson_toJson, bind,
      Except.bind, pure, Except.pure]
  | levels + 1, grouping e, h => by
    simp [json, ofJson, Json.field?, Json.findField, Json.require,
      ofJson_json e (Nat.le_of_succ_le_succ h), bind, Except.bind, pure, Except.pure]
  | levels + 1, unary op e, h => by
    simp [json, ofJson, Json.field?, Json.findField, Json.require, Token.ofJson_toJson,
      ofJson_json e (Nat.le_of_succ_le_succ h), bind, Except.bind, pure, Except.pure]
  | levels + 1, binary l op r, h => by
    obtain ⟨hl, hr⟩ := Nat.max_le.1 (Nat.le_of_succ_le_succ h)
    simp [json, ofJson, Json.field?, Json.findField, Json.require, Token.ofJson_toJson,
      ofJson_json l hl, ofJson_json r hr, bind, Except.bind, pure, Except.pure]
  | levels + 1, expression e, h => by
    simp [json, ofJson, Json.field?, Json.findField, Json.require,
      ofJson_json e (Nat.le_of_succ_le_succ h), bind, Except.bind, pure, Except.pure]
  | levels + 1, print e, h => by
    simp [json, ofJson, Json.field?, Json.findField, Json.require,
      ofJson_json e (Nat.le_of_succ_le_succ h), bind, Except.bind, pure, Except.pure]
  | levels + 1, program body, h => by
    simp [json, ofJson, Json.field?, Json.findField, bodyItems,
      mapM_ofJson_jsonAll body (Nat.le_of_succ_le_succ h), bind, Except.bind, pure, Except.pure]

theorem mapM_ofJson_jsonAll : ∀ {levels : Nat} (body : List Node), depthAll body ≤ levels →
    (jsonAll body).mapM (ofJson levels) = .ok body
  | _, [], _ => rfl
  | _, n :: rest, h => by
    obtain ⟨hn, hrest⟩ := Nat.max_le.1 h
    rw [jsonAll, List.mapM_cons, ofJson_json n hn, mapM_ofJson_jsonAll rest hrest]
    rfl

end

/-! ## What reading gives -/

/-- The trees that reading can give if its parts are read with the given levels. -/
inductive ReadWith (levels : Nat) : Node → Prop
  | literal (t : Token) : ReadWith levels (.literal t)
  | grouping {v : Json} {e : Node} (inner : ofJson levels v = .ok e) :
      ReadWith levels (.grouping e)
  | unary {v : Json} {e : Node} (op : Token) (operand : ofJson levels v = .ok e) :
      ReadWith levels (.unary op e)
  | binary {v w : Json} {l r : Node} (op : Token) (left : ofJson levels v = .ok l)
      (right : ofJson levels w = .ok r) : ReadWith levels (.binary l op r)
  | expression {v : Json} {e : Node} (body : ofJson levels v = .ok e) :
      ReadWith levels (.expression e)
  | print {v : Json} {e : Node} (body : ofJson levels v = .ok e) : ReadWith levels (.print e)
  | program {items : List Json} {body : List Node}
      (read : items.mapM (ofJson levels) = .ok body) : ReadWith levels (.program body)

/-- Reading takes a level for the node and leaves the others to its parts, whatever else stands in
the JSON value. -/
theorem readWith_of_ofJson {levels : Nat} {v : Json} {n : Node}
    (h : ofJson (levels + 1) v = .ok n) : ReadWith levels n := by
  simp only [ofJson] at h
  split at h
  · cases h
  · obtain ⟨items, -, h⟩ := exists_of_bind_eq_ok h
    obtain ⟨body, hbody, h⟩ := exists_of_bind_eq_ok h
    cases h
    exact .program hbody
  · obtain ⟨u, -, h⟩ := exists_of_bind_eq_ok h
    obtain ⟨e, he, h⟩ := exists_of_bind_eq_ok h
    cases h
    exact .expression he
  · obtain ⟨u, -, h⟩ := exists_of_bind_eq_ok h
    obtain ⟨e, he, h⟩ := exists_of_bind_eq_ok h
    cases h
    exact .print he
  · obtain ⟨u, -, h⟩ := exists_of_bind_eq_ok h
    obtain ⟨t, -, h⟩ := exists_of_bind_eq_ok h
    cases h
    exact .literal t
  · obtain ⟨u, -, h⟩ := exists_of_bind_eq_ok h
    obtain ⟨e, he, h⟩ := exists_of_bind_eq_ok h
    cases h
    exact .grouping he
  · obtain ⟨u, -, h⟩ := exists_of_bind_eq_ok h
    obtain ⟨op, -, h⟩ := exists_of_bind_eq_ok h
    obtain ⟨w, -, h⟩ := exists_of_bind_eq_ok h
    obtain ⟨e, he, h⟩ := exists_of_bind_eq_ok h
    cases h
    exact .unary op he
  · obtain ⟨u, -, h⟩ := exists_of_bind_eq_ok h
    obtain ⟨l, hl, h⟩ := exists_of_bind_eq_ok h
    obtain ⟨w, -, h⟩ := exists_of_bind_eq_ok h
    obtain ⟨op, -, h⟩ := exists_of_bind_eq_ok h
    obtain ⟨x, -, h⟩ := exists_of_bind_eq_ok h
    obtain ⟨r, hr, h⟩ := exists_of_bind_eq_ok h
    cases h
    exact .binary op hl hr
  · cases h

theorem depthAll_le_of_mapM {levels : Nat}
    (h : ∀ {v : Json} {n : Node}, ofJson levels v = .ok n → n.depth ≤ levels) {items : List Json}
    {body : List Node} (hread : items.mapM (ofJson levels) = .ok body) :
    depthAll body ≤ levels := by
  induction items generalizing body with
  | nil =>
    cases hread
    exact Nat.zero_le levels
  | cons v items ih =>
    rw [List.mapM_cons] at hread
    obtain ⟨n, hn, hread⟩ := exists_of_bind_eq_ok hread
    obtain ⟨rest, hrest, hread⟩ := exists_of_bind_eq_ok hread
    cases hread
    exact Nat.max_le.2 ⟨h hn, ih hrest⟩

/-- A tree that was read is no deeper than the levels of reading, so it can be written. -/
theorem depth_le_of_ofJson {levels : Nat} {v : Json} {n : Node} (h : ofJson levels v = .ok n) :
    n.depth ≤ levels := by
  induction levels generalizing v n with
  | zero => cases h
  | succ levels ih =>
    cases readWith_of_ofJson h with
    | literal t => exact Nat.succ_le_succ (Nat.zero_le levels)
    | grouping he | unary _ he | expression he | print he => exact Nat.succ_le_succ (ih he)
    | binary _ hl hr => exact Nat.succ_le_succ (Nat.max_le.2 ⟨ih hl, ih hr⟩)
    | program hbody => exact Nat.succ_le_succ (depthAll_le_of_mapM ih hbody)

/-- **Trees and their JSON values are faithful to each other.** Every tree that is no deeper than
the levels, with any tokens and with its parts in place or not, is written, and what is written is
read back as that tree. And whatever JSON value is read as a tree, with fields that reading does not
know or without a body, the tree is written, and what is written is read as the same tree. -/
theorem trees_read_back (levels : Nat) :
    (∀ n : Node, n.depth ≤ levels →
      ∃ v, n.toJson levels = .ok v ∧ ofJson levels v = .ok n) ∧
    ∀ (v : Json) (n : Node), ofJson levels v = .ok n →
      ∃ w, n.toJson levels = .ok w ∧ ofJson levels w = .ok n := by
  have hback : ∀ n : Node, n.depth ≤ levels →
      ∃ v, n.toJson levels = .ok v ∧ ofJson levels v = .ok n := by
    intro n hn
    exact ⟨n.json, toJson_of_depth_le n hn, ofJson_json n hn⟩
  refine ⟨hback, ?_⟩
  intro v n h
  exact hback n (depth_le_of_ofJson h)

/-- A statement inside an expression with an unknown field, and in it a program without a body. The
JSON value that is written is another one. -/
theorem trees_read_back_out_of_place :
    let operator : Token := ⟨.varWord, "a \"b\"\n", -3⟩
    let n : Node := .unary operator (.print (.program []))
    let v : Json := .obj [("note", .null), ("type", .str "Unary"), ("operator", operator.toJson),
      ("operand", .obj [("type", .str "PrintStmt"), ("expression", .obj [("type", .str "Program")]),
        ("line", .int 7)])]
    ofJson depthLimit v = .ok n ∧
      (∃ w, w ≠ v ∧ n.toJson depthLimit = .ok w ∧ ofJson depthLimit w = .ok n) ∧
      (Node.program [n]).depth ≤ depthLimit ∧
      ∃ w, (Node.program [n]).toJson depthLimit = .ok w ∧
        ofJson depthLimit w = .ok (.program [n]) := by
  intro operator n v
  have hread : ofJson depthLimit v = .ok n := rfl
  have hdepth : (Node.program [n]).depth ≤ depthLimit := by decide
  obtain ⟨hwritten, hreads⟩ := trees_read_back depthLimit
  obtain ⟨w, hw, hback⟩ := hreads v n hread
  refine ⟨hread, ⟨w, ?_, hw, hback⟩, hdepth, hwritten _ hdepth⟩
  obtain rfl := Except.ok.inj (hw.symm.trans (toJson_of_depth_le n (by decide)))
  simp [n, v, json]

end Node

/-! ## The JSON value of a tree -/

/-- The lines of the tokens have few enough digits to be read back. -/
def ShortLines (tokens : List Token) : Prop :=
  ∀ t ∈ tokens, t.line.natAbs < 10 ^ Json.maxDigits

theorem ShortLines.mono {tokens others : List Token} (h : ShortLines tokens)
    (hsub : ∀ t ∈ others, t ∈ tokens) : ShortLines others := fun t ht => h t (hsub t ht)

theorem Token.readable_toJson {t : Token} {tokens : List Token} (h : ShortLines tokens)
    (ht : t ∈ tokens) (levels : Nat) : t.toJson.Readable (levels + 1) := by
  refine .obj (List.forall_mem_cons.2 ⟨.str _, List.forall_mem_cons.2 ⟨.str _, ?_⟩⟩) (by simp)
  exact List.forall_mem_singleton.2 (.int (h t ht))

namespace Node

open List (forall_mem_cons forall_mem_singleton mem_append_left mem_append_right mem_cons_self
  mem_cons_of_mem)

theorem Computable.readable_json {e : Node} (h : e.Computable) (hlines : ShortLines e.tokens) :
    e.json.Readable (e.depth + 1) := by
  induction h with
  | literal =>
    have htoken := Token.readable_toJson hlines mem_cons_self
    exact .obj (forall_mem_cons.2 ⟨.str _, forall_mem_singleton.2 (htoken _)⟩) (by simp)
  | grouping _ ih =>
    exact .obj (forall_mem_cons.2 ⟨.str _, forall_mem_singleton.2 (ih hlines)⟩) (by simp)
  | unary _ _ ih =>
    have hoperator := Token.readable_toJson hlines mem_cons_self
    have hoperand := ih (hlines.mono fun t ht => mem_cons_of_mem _ ht)
    exact .obj (forall_mem_cons.2 ⟨.str _, forall_mem_cons.2
      ⟨hoperator _, forall_mem_singleton.2 hoperand⟩⟩) (by simp)
  | @binary l r op _ _ _ ihl ihr =>
    have hoperator := Token.readable_toJson hlines (mem_append_right _ mem_cons_self)
    have hleft := (ihl (hlines.mono fun t ht => mem_append_left _ ht)).mono
      (Nat.succ_le_succ (Nat.le_max_left l.depth r.depth))
    have hright := (ihr (hlines.mono fun t ht => mem_append_right _ (mem_cons_of_mem _ ht))).mono
      (Nat.succ_le_succ (Nat.le_max_right l.depth r.depth))
    exact .obj (forall_mem_cons.2 ⟨.str _, forall_mem_cons.2 ⟨hleft, forall_mem_cons.2
      ⟨hoperator _, forall_mem_singleton.2 hright⟩⟩⟩) (by simp)

theorem Runnable.readable_json {s : Node} (h : s.Runnable) (hlines : ShortLines s.tokens) :
    s.json.Readable (s.depth + 1) := by
  cases h with
  | expression he | print he =>
    have hbody := he.readable_json hlines
    exact .obj (forall_mem_cons.2 ⟨.str _, forall_mem_singleton.2 hbody⟩) (by simp)

theorem depth_le_depthAll {body : List Node} {n : Node} (h : n ∈ body) :
    n.depth ≤ depthAll body := by
  induction body with
  | nil => cases h
  | cons m rest ih =>
    rcases List.mem_cons.1 h with rfl | h
    · exact Nat.le_max_left _ _
    · exact Nat.le_trans (ih h) (Nat.le_max_right _ _)

theorem depth_program_le {body : List Node} {levels : Nat} (hlevels : 0 < levels)
    (h : ∀ n ∈ body, n.depth < levels) : (program body).depth ≤ levels := by
  have hall : depthAll body < levels := by
    induction body with
    | nil => exact hlevels
    | cons n rest ih =>
      obtain ⟨hn, hrest⟩ := forall_mem_cons.1 h
      exact Nat.max_lt.2 ⟨hn, ih hrest⟩
  exact hall

theorem jsonAll_eq_map (body : List Node) : jsonAll body = body.map json := by
  induction body with
  | nil => rfl
  | cons n rest ih => rw [jsonAll, ih, List.map_cons]

/-- A program of statements that can be run is two levels deeper as JSON. -/
theorem readable_json_program {body : List Node} (h : ∀ s ∈ body, s.Runnable)
    (hlines : ∀ s ∈ body, ShortLines s.tokens) :
    (program body).json.Readable ((program body).depth + 2) := by
  have hitems : ∀ v ∈ jsonAll body, v.Readable (depthAll body + 1) := by
    intro v hv
    rw [jsonAll_eq_map] at hv
    obtain ⟨s, hs, rfl⟩ := List.mem_map.1 hv
    exact ((h s hs).readable_json (hlines s hs)).mono (Nat.succ_le_succ (depth_le_depthAll hs))
  exact .obj (forall_mem_cons.2 ⟨.str _, forall_mem_singleton.2 (.arr hitems)⟩) (by simp)

end Node

end Scriptlet
