import Scriptlet.Proofs.Running.Faults
import Scriptlet.Proofs.Scanning.Composition
import Scriptlet.Proofs.Syntax.Relabelling

/-!
# Running trees whose tokens were moved

A program sees the kinds and the texts of its tokens, but not their lines. So a tree whose tokens
were moved to other lines (`Token.Moves`) is evaluated like the tree itself, and fails at the moved
token (`Evaluation.evaluate_mapTokens`). Lines show in diagnostics only, and there are two cases in
which it is known how.

If all tokens are moved by the same number of lines, so are all diagnostics
(`Run.statements_later`). If only texts are moved, the diagnostics stay as they are, since nothing
fails at a text; only a statement that is too deep is reported at its first token, whatever that is
(`Run.statements_texts`). What a log is to show matters in the same way: a statement may be too deep
for it, and nothing else changes (`Run.statements_of_detail_le`). Both are shown for one statement
and carried over to a run by `Run.statements_of_told`.
-/

namespace Scriptlet

/-- A replacement of tokens that changes nothing but their lines. -/
structure Token.Moves (f : Token → Token) : Prop where
  kind : ∀ t, (f t).kind = t.kind
  lexeme : ∀ t, (f t).lexeme = t.lexeme

/-- What is wrong with a tree whose tokens are replaced. -/
def Malformed.mapTokens (f : Token → Token) : Malformed → Malformed
  | statement n => statement (n.mapTokens f)
  | expression n => expression (n.mapTokens f)
  | node n => node (n.mapTokens f)
  | numeral lexeme => numeral lexeme
  | program n => program (n.mapTokens f)

/-- A fault in a tree whose tokens are replaced. -/
def Fault.mapTokens (f : Token → Token) : Fault → Fault
  | failed t cause => failed (f t) cause
  | tooDeep => tooDeep
  | malformed reason => malformed (reason.mapTokens f)

/-- A refusal of a tree whose tokens are replaced. -/
def Node.Refusal.mapTokens (f : Token → Token) : Node.Refusal → Node.Refusal
  | tooDeep => tooDeep
  | outOfPlace n => outOfPlace (n.mapTokens f)

/-! ## Evaluation -/

namespace Evaluation

variable {f : Token → Token} (hf : Token.Moves f) {α β : Type}

theorem adaptExcept_bind (g : Fault → Fault) (x : Evaluation α) (k : α → Evaluation β) :
    EStateM.adaptExcept g (x >>= k) =
      EStateM.adaptExcept g x >>= fun a => EStateM.adaptExcept g (k a) := by
  funext m
  simp only [EStateM.adaptExcept, bind, EStateM.bind]
  cases x m with
  | ok a m' => rfl
  | error fault m' => rfl

include hf

theorem literal_mapTokens (t : Token) :
    literal (f t) = EStateM.adaptExcept (Fault.mapTokens f) (literal t) := by
  simp only [literal, hf.kind, hf.lexeme]
  split
  · cases Numeral.value? t.lexeme <;> rfl
  · rfl
  · rfl
  · rfl
  · rfl
  · rw [adaptExcept_bind]
    apply bind_congr
    intro m
    cases m.scopes.get? t.lexeme <;> rfl
  · rfl

theorem prefixed_mapTokens (op : Token) (v : Value) :
    prefixed (f op) v = EStateM.adaptExcept (Fault.mapTokens f) (prefixed op v) := by
  cases v with
  | number x =>
    simp only [prefixed, hf.kind]
    split <;> rfl
  | null | text | failure | foreign => rfl

theorem operation_mapTokens (op : Token) (a b : Value) :
    operation (f op) a b = EStateM.adaptExcept (Fault.mapTokens f) (operation op a b) := by
  simp only [operation, hf.kind]
  cases Operation.apply op.kind a b <;> rfl

theorem target?_mapTokens (n : Node) : target? (n.mapTokens f) = target? n := by
  cases n with
  | literal t => simp only [Node.mapTokens, target?, hf.kind, hf.lexeme]
  | _ => rfl

/-- A tree with moved tokens is evaluated like the tree, and fails at the moved token. -/
theorem evaluate_mapTokens : ∀ (levels : Nat) (e : Node),
    evaluate levels (e.mapTokens f) = EStateM.adaptExcept (Fault.mapTokens f) (evaluate levels e)
  | 0, _ => by
    rw [evaluate, evaluate]
    rfl
  | _ + 1, .literal t => literal_mapTokens hf t
  | levels + 1, .grouping e => evaluate_mapTokens levels e
  | levels + 1, .unary op e => by
    simp only [Node.mapTokens, evaluate, adaptExcept_bind, evaluate_mapTokens levels e,
      prefixed_mapTokens hf]
  | levels + 1, .binary l op r => by
    have hl := evaluate_mapTokens levels l
    have hr := evaluate_mapTokens levels r
    simp only [Node.mapTokens, evaluate, hf.kind, target?_mapTokens hf]
    split
    · cases target? l with
      | none => rfl
      | some name =>
        simp only [adaptExcept_bind, evaluate_mapTokens (levels - 1) r]
        rfl
    · rw [adaptExcept_bind, hl]
      apply bind_congr
      intro left
      split
      · rw [adaptExcept_bind, hr]
        rfl
      · rfl
    · rw [adaptExcept_bind, hl]
      apply bind_congr
      intro left
      split
      · rfl
      · rw [adaptExcept_bind, hr]
        rfl
    · simp only [adaptExcept_bind, hl, hr, operation_mapTokens hf]
  | _ + 1, .expression e => rfl
  | _ + 1, .print e => rfl
  | _ + 1, .program body => rfl
termination_by structural _ e => e

end Evaluation

/-! ## Statements -/

theorem Node.format_mapTokens {f : Token → Token} (hf : Token.Moves f) :
    ∀ (levels : Nat) (n : Node),
      (n.mapTokens f).format levels = (n.format levels).mapError (Refusal.mapTokens f)
  | 0, _ => rfl
  | _ + 1, .literal t => by
    simp only [mapTokens, format, hf.lexeme]
    rfl
  | levels + 1, .grouping e => by
    simp only [mapTokens, format, format_mapTokens hf levels e]
    cases e.format levels <;> rfl
  | levels + 1, .unary op e => by
    simp only [mapTokens, format, format_mapTokens hf levels e, hf.lexeme]
    cases e.format levels <;> rfl
  | levels + 1, .binary l op r => by
    simp only [mapTokens, format, format_mapTokens hf levels l, format_mapTokens hf levels r,
      hf.lexeme]
    cases l.format levels with
    | error refusal => rfl
    | ok left => cases r.format levels <;> rfl
  | levels + 1, .expression e => format_mapTokens hf levels e
  | levels + 1, .print e => by
    simp only [mapTokens, format, format_mapTokens hf levels e]
    cases e.format levels <;> rfl
  | _ + 1, .program body => rfl
termination_by structural _ n => n

namespace Run

variable {f : Token → Token} (hf : Token.Moves f)

include hf

theorem execute_mapTokens (s : Node) :
    execute (s.mapTokens f) = EStateM.adaptExcept (Fault.mapTokens f) (execute s) := by
  cases s with
  | expression e | print e =>
    simp only [Node.mapTokens, execute, Evaluation.adaptExcept_bind,
      Evaluation.evaluate_mapTokens hf]
    rfl
  | _ => rfl

/-- An attempt at a statement with moved tokens comes out as the attempt at the statement, with the
fault moved. -/
theorem attempt_mapTokens (detail : Nat) (s : Node) (scopes : Scopes Value) :
    attempt detail (s.mapTokens f) scopes =
      match attempt detail s scopes with
      | .ok result scopes' => .ok result scopes'
      | .error fault scopes' => .error (fault.mapTokens f) scopes' := by
  simp only [attempt, performed, execute_mapTokens hf, EStateM.run_adaptExcept,
    Node.format_mapTokens hf]
  split
  · cases s.format Node.depthLimit with
    | ok text => cases (execute s).run { scopes } <;> rfl
    | error refusal => cases refusal <;> rfl
  · cases (execute s).run { scopes } <;> rfl

end Run

namespace Node

variable {f : Token → Token} (hf : Token.Moves f)

include hf

theorem Computable.mapTokens {e : Node} (h : e.Computable) : (e.mapTokens f).Computable := by
  induction h with
  | literal hkind hnumeral =>
    refine .literal (by rwa [hf.kind]) fun hnumber => ?_
    rw [hf.kind] at hnumber
    rw [hf.lexeme]
    exact hnumeral hnumber
  | grouping _ ih => exact .grouping ih
  | unary hsign _ ih => exact .unary (by rwa [hf.kind]) ih
  | binary hoperator _ _ ihl ihr => exact .binary (by rwa [hf.kind]) ihl ihr

theorem Runnable.mapTokens {s : Node} (h : s.Runnable) : (s.mapTokens f).Runnable := by
  cases h with
  | expression he => exact .expression (he.mapTokens hf)
  | print he => exact .print (he.mapTokens hf)

end Node

/-! ## All tokens some lines later -/

theorem Token.moves_later (k : Int) : Token.Moves (Token.later k) := ⟨fun _ => rfl, fun _ => rfl⟩

theorem Node.line_later (k : Int) : ∀ (n : Node) {line : Int}, n.line = .ok line →
    (n.mapTokens (Token.later k)).line = .ok (line + k)
  | .literal t, _, h => by
    cases h
    rfl
  | .grouping e, _, h => line_later k e h
  | .unary op e, _, h => by
    cases h
    rfl
  | .binary l op r, _, h => line_later k l h
  | .expression e, _, h => line_later k e h
  | .print e, _, h => line_later k e h
termination_by structural n => n

namespace Run

theorem diagnose_later (k : Int) {s : Node} {fault : Fault} {d : Diagnostic}
    (h : diagnose s fault = .ok d) :
    diagnose (s.mapTokens (Token.later k)) (fault.mapTokens (Token.later k)) =
      .ok (d.later k) := by
  cases fault with
  | failed t cause =>
    cases h
    rfl
  | tooDeep =>
    simp only [diagnose] at h
    split at h
    · next line hline =>
      cases h
      simp only [Fault.mapTokens, diagnose, Node.line_later k s hline]
      rfl
    · cases h
  | malformed reason => cases h

/-- One effect does what the other does and tells of it some lines later. -/
structure Later (k : Int) (e e' : Effect) : Prop where
  scopes : e'.scopes = e.scopes
  printed : e'.printed = e.printed
  diagnostics : e'.diagnostics = e.diagnostics.map (Diagnostic.later k)

theorem Later.told {s : Node} (h : s.Runnable) (k : Int) (detail : Nat) (scopes : Scopes Value) :
    Later k (told s (attempt detail s scopes))
      (Run.told (s.mapTokens (Token.later k))
        (attempt detail (s.mapTokens (Token.later k)) scopes)) := by
  rw [attempt_mapTokens (Token.moves_later k)]
  cases hattempt : attempt detail s scopes with
  | ok result scopes' => exact ⟨rfl, rfl, rfl⟩
  | error fault scopes' =>
    obtain ⟨d, hd⟩ := diagnose_ok h (attempt_faults h hattempt)
    simp only [Run.told, hd, diagnose_later k hd]
    exact ⟨rfl, rfl, rfl⟩

theorem Later.andThen {k : Int} {e e' : Effect} {next next' : Scopes Value → Value → Effect}
    (h : Later k e e') (hends : ∃ v, e.outcome = .ok v) (hends' : ∃ v, e'.outcome = .ok v)
    (hnext : ∀ scopes v v', Later k (next scopes v) (next' scopes v')) :
    Later k (e.andThen next) (e'.andThen next') := by
  obtain ⟨v, hv⟩ := hends
  obtain ⟨v', hv'⟩ := hends'
  have hafter := hnext e.scopes v v'
  simp only [Effect.andThen, hv, hv', h.scopes]
  exact ⟨hafter.scopes, by rw [h.printed, hafter.printed],
    by rw [h.diagnostics, hafter.diagnostics, List.map_append]⟩

/-- Statements whose tokens are all some lines later do the same and are told of as much later. -/
theorem statements_later {nodes : List Node} (h : ∀ s ∈ nodes, s.Runnable) (k : Int) (detail : Nat)
    (scopes : Scopes Value) (v v' : Value) :
    Later k (statements detail nodes scopes v)
      (statements detail (nodes.map (Node.mapTokens (Token.later k))) scopes v') := by
  have hquiet : Later k (statements detail nodes scopes v).withoutNotes
      (statements detail (nodes.map (Node.mapTokens (Token.later k))) scopes v').withoutNotes := by
    induction nodes generalizing scopes v v' with
    | nil => exact ⟨rfl, rfl, rfl⟩
    | cons s nodes ih =>
      have hs := h s List.mem_cons_self
      have hs' := hs.mapTokens (Token.moves_later k)
      rw [List.map_cons, withoutNotes_statements_cons, withoutNotes_statements_cons]
      exact (Later.told hs k detail scopes).andThen (Ends.told hs detail scopes).finishes
        (Ends.told hs' detail scopes).finishes fun scopes v v' =>
          ih (fun s' hmem => h s' (List.mem_cons_of_mem _ hmem)) scopes v v'
  exact ⟨hquiet.scopes, hquiet.printed, hquiet.diagnostics⟩

/-! ## Texts on other lines and other details -/

/-- No statement was found to be too deep. -/
def Shallow (e : Effect) : Prop := ∀ d ∈ e.diagnostics, d.message ≠ tooDeepMessage

theorem not_shallow_told_tooDeep {s : Node} (h : s.Runnable) (scopes : Scopes Value) :
    ¬Shallow (told s (.error .tooDeep scopes)) := by
  obtain ⟨line, hline⟩ := h.line_ok
  simp only [told, diagnose, hline]
  exact fun hshallow => hshallow _ (List.mem_singleton.2 rfl) rfl

/-- A statement in which only texts are on other lines is told of alike. -/
theorem told_texts {f : Token → Token} (hf : Token.Moves f)
    (htexts : ∀ t, t.kind ≠ .string → f t = t) {s : Node} (h : s.Runnable) (detail : Nat)
    (scopes : Scopes Value)
    (hshallow : Shallow (told (s.mapTokens f) (attempt detail (s.mapTokens f) scopes))) :
    told (s.mapTokens f) (attempt detail (s.mapTokens f) scopes) =
      told s (attempt detail s scopes) := by
  rw [attempt_mapTokens hf] at hshallow ⊢
  cases hattempt : attempt detail s scopes with
  | ok result scopes' => rfl
  | error fault scopes' =>
    rw [hattempt] at hshallow
    -- Nothing fails at a text, so the token at fault stays where it is.
    cases attempt_faults h hattempt with
    | failed hkind => simp only [Fault.mapTokens, htexts _ hkind, told, diagnose]
    | tooDeep => exact absurd hshallow (not_shallow_told_tooDeep (h.mapTokens hf) _)

/-- With less detail a statement is attempted alike, unless it is too deep to be written down. -/
theorem attempt_of_detail_le {s : Node} (h : s.Runnable) {detail detail' : Nat}
    (hle : detail ≤ detail') (scopes : Scopes Value) :
    attempt detail' s scopes = attempt detail s scopes ∨
      attempt detail' s scopes = .error .tooDeep scopes := by
  by_cases hdetail : statementDetail ≤ detail
  · exact .inl (by simp only [attempt, hdetail, Nat.le_trans hdetail hle, if_true])
  by_cases hdetail' : statementDetail ≤ detail'
  · simp only [attempt, hdetail, hdetail', if_true, if_false]
    cases hformat : s.format Node.depthLimit with
    | ok text => exact .inl rfl
    | error refusal =>
      cases refusal with
      | tooDeep => exact .inr rfl
      | outOfPlace n => exact absurd hformat (h.format_ne n _)
  · exact .inl (by simp only [attempt, hdetail, hdetail', if_false])

theorem told_of_detail_le {s : Node} (h : s.Runnable) {detail detail' : Nat}
    (hle : detail ≤ detail') (scopes : Scopes Value)
    (hshallow : Shallow (told s (attempt detail' s scopes))) :
    told s (attempt detail' s scopes) = told s (attempt detail s scopes) := by
  rcases attempt_of_detail_le h hle scopes with hattempt | hattempt
  · rw [hattempt]
  · rw [hattempt] at hshallow
    exact absurd hshallow (not_shallow_told_tooDeep h scopes)

/-- Statements run alike if each of them is told of alike, as long as none is too deep. -/
theorem statements_of_told {g : Node → Node} {detail detail' : Nat} {nodes : List Node}
    (hrunnable : ∀ s ∈ nodes, (g s).Runnable)
    (htold : ∀ s ∈ nodes, ∀ scopes, Shallow (told (g s) (attempt detail' (g s) scopes)) →
      told (g s) (attempt detail' (g s) scopes) = told s (attempt detail s scopes))
    (scopes : Scopes Value) (v : Value)
    (hshallow : Shallow (statements detail' (nodes.map g) scopes v)) :
    (statements detail' (nodes.map g) scopes v).withoutNotes =
      (statements detail nodes scopes v).withoutNotes := by
  induction nodes generalizing scopes v with
  | nil => rfl
  | cons s nodes ih =>
    obtain ⟨w, hw⟩ := (Ends.told (hrunnable s List.mem_cons_self) detail' scopes).finishes
    have hcons := withoutNotes_statements_cons detail' (g s) (nodes.map g) scopes v
    simp only [Effect.andThen, hw] at hcons
    have hparts : Shallow (statements detail' (g s :: nodes.map g) scopes v).withoutNotes :=
      hshallow
    rw [hcons] at hparts
    have hfirst := htold s List.mem_cons_self scopes fun d hd =>
      hparts d (List.mem_append_left _ hd)
    have hrest := ih (fun s' hs' => hrunnable s' (List.mem_cons_of_mem _ hs'))
      (fun s' hs' => htold s' (List.mem_cons_of_mem _ hs')) _ w fun d hd =>
      hparts d (List.mem_append_right _ hd)
    rw [List.map_cons, withoutNotes_statements_cons, withoutNotes_statements_cons, ← hfirst]
    simp only [Effect.andThen, hw, hrest]

/-- Statements in which only texts are on other lines run alike, as long as none is too deep. -/
theorem statements_texts {f : Token → Token} (hf : Token.Moves f)
    (htexts : ∀ t, t.kind ≠ .string → f t = t) {nodes : List Node} (h : ∀ s ∈ nodes, s.Runnable)
    {detail : Nat} {scopes : Scopes Value} {v : Value}
    (hshallow : Shallow (statements detail (nodes.map (Node.mapTokens f)) scopes v)) :
    (statements detail (nodes.map (Node.mapTokens f)) scopes v).withoutNotes =
      (statements detail nodes scopes v).withoutNotes :=
  statements_of_told (fun s hs => (h s hs).mapTokens hf)
    (fun s hs scopes => told_texts hf htexts (h s hs) detail scopes) scopes v hshallow

/-- With less detail statements run alike, as long as none is too deep with more. -/
theorem statements_of_detail_le {nodes : List Node} (h : ∀ s ∈ nodes, s.Runnable)
    {detail detail' : Nat} (hle : detail ≤ detail') {scopes : Scopes Value} {v : Value}
    (hshallow : Shallow (statements detail' nodes scopes v)) :
    (statements detail' nodes scopes v).withoutNotes =
      (statements detail nodes scopes v).withoutNotes := by
  have hmap : nodes.map id = nodes := List.map_id nodes
  rw [← hmap] at hshallow
  have heq := @statements_of_told id detail detail' nodes h
    (fun s hs scopes => told_of_detail_le (h s hs) hle scopes) scopes v hshallow
  rwa [hmap] at heq

end Run

end Scriptlet
