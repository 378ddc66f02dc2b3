import Scriptlet.FrontEnd
import Scriptlet.Proofs.Scanning.Composition
import Scriptlet.Proofs.Syntax.Completeness
import Scriptlet.Proofs.Syntax.Relabelling

/-!
# Reading a source text in parts

A separator ends whatever the recovering front end was doing: the statement before it, an open
parenthesis, a statement that has passed the nesting limit, or the skipping after a mistake. It
therefore reads the tokens before a separator as if the source ended there, and the tokens after it
as if the source began there (`Recovering.statements_read_separator`). If the separator itself
belongs to the first part, this holds of the diagnostics as well, since a mistake that shows at a
separator is reported there and not after it (`Recovering.parse?_append_of_separated`). Reading
looks at kinds only, so tokens some lines later make the same trees some lines later
(`Recovering.read_mapTokens`). Both together say what becomes of a source text that is continued
after a line break (`parse_descent_append_break`).
-/

namespace Scriptlet

/-! ## The nesting of relabelled readings -/

namespace Reading

variable {f : Token → Token} (hf : ∀ t, (f t).kind = t.kind)

include hf

theorem targets_mapTokens (waiting : List Waiting) :
    targets (waiting.map (Waiting.mapTokens f)) = targets waiting := by
  simp only [targets, List.countP_map]
  congr 1
  funext w
  simp only [Function.comp, Waiting.mapTokens, hf]

theorem around_mapTokens (outer : List Pending) :
    load.around (outer.map (Pending.mapTokens f)) = load.around outer := by
  induction outer with
  | nil => rfl
  | cons p outer ih =>
    simp only [List.map_cons, load.around, Pending.mapTokens, targets_mapTokens hf, List.length_map,
      ih]

theorem load_mapTokens (r : Reading) : (r.mapTokens f).load = r.load := by
  cases r with
  | wanting outer inner =>
    simp only [mapTokens, load, Pending.mapTokens, targets_mapTokens hf, around_mapTokens hf,
      List.length_map]
  | holding outer waiting operand =>
    simp only [mapTokens, load, targets_mapTokens hf, around_mapTokens hf]

end Reading

namespace FrontEnd.Recovering

/-! ## Relabelled tokens -/

/-- An event with its tokens replaced. -/
def Event.mapTokens (f : Token → Token) : Event → Event
  | statement n => statement (n.mapTokens f)
  | complaint t c => complaint (f t) c

/-- A phase with its tokens replaced. -/
def Phase.mapTokens (f : Token → Token) : Phase → Phase
  | between => between
  | within printing r => within printing (r.mapTokens f)
  | beyond byOne => beyond byOne
  | skipping => skipping

theorem map_complaint_mapTokens (f : Token → Token) (t : Token) (cs : List Complaint) :
    (cs.map (Event.complaint t)).map (Event.mapTokens f) = cs.map (.complaint (f t)) := by
  rw [List.map_map]
  rfl

section Relabelling

variable {f : Token → Token} (hf : ∀ t, (f t).kind = t.kind)

include hf

theorem complaints_mapTokens (r : Reading) : complaints (r.mapTokens f) = complaints r := by
  have hload := Reading.load_mapTokens hf r
  cases r with
  | wanting outer inner =>
    simp only [Reading.mapTokens] at hload
    simp only [Reading.mapTokens, complaints, hload]
  | holding outer waiting operand => cases outer <;> rfl

theorem finish_mapTokens (phase : Phase) (final : Token) :
    finish (phase.mapTokens f) (f final) = (finish phase final).map (Event.mapTokens f) := by
  cases phase with
  | between | beyond | skipping => rfl
  | within printing r =>
    simp only [Phase.mapTokens, finish, Reading.finished?_mapTokens, complaints_mapTokens hf]
    cases r.finished? with
    | none => exact (map_complaint_mapTokens f final _).symm
    | some e =>
      simp only [Option.map_some, ← Node.mapTokens_ofExpression]
      rfl

theorem complain_mapTokens (t : Token) (cs : List Complaint) :
    complain (f t) cs =
      ((complain t cs).1.mapTokens f, (complain t cs).2.map (Event.mapTokens f)) := by
  simp only [complain, hf, map_complaint_mapTokens]
  split <;> rfl

theorem within_mapTokens (printing : Bool) (r : Reading) (t : Token) :
    within printing (r.mapTokens f) (f t) =
      ((within printing r t).1.mapTokens f, (within printing r t).2.map (Event.mapTokens f)) := by
  simp only [within, hf, Reading.finished?_mapTokens, Reading.step_mapTokens hf,
    complaints_mapTokens hf, complain_mapTokens hf]
  split
  · cases r.finished? with
    | none => rfl
    | some e =>
      simp only [Option.map_some, ← Node.mapTokens_ofExpression]
      rfl
  · cases r.step t with
    | none => rfl
    | some r' =>
      simp only [Option.map_some, Reading.load_mapTokens hf]
      split <;> rfl

theorem begin_mapTokens (t : Token) :
    begin (f t) = ((begin t).1.mapTokens f, (begin t).2.map (Event.mapTokens f)) := by
  have hwithin := within_mapTokens hf false .start t
  simp only [begin, hf]
  split
  · rfl
  split
  · rfl
  · exact hwithin

theorem step_mapTokens (phase : Phase) (t : Token) :
    step (phase.mapTokens f) (f t) =
      ((step phase t).1.mapTokens f, (step phase t).2.map (Event.mapTokens f)) := by
  cases phase with
  | between => exact begin_mapTokens hf t
  | within printing r => exact within_mapTokens hf printing r t
  | beyond byOne =>
    simp only [Phase.mapTokens, step, overrun, hf, complain_mapTokens hf]
    split <;> rfl
  | skipping =>
    simp only [Phase.mapTokens, step, hf]
    split
    · exact begin_mapTokens hf t
    split <;> rfl

/-- Reading looks at the kinds of tokens only. -/
theorem read_mapTokens (phase : Phase) (ts : List Token) (final : Token) :
    read (phase.mapTokens f) (ts.map f) (f final) =
      (read phase ts final).map (Event.mapTokens f) := by
  induction ts generalizing phase with
  | nil => exact finish_mapTokens hf phase final
  | cons t ts ih => simp only [List.map_cons, read, step_mapTokens hf, ih, List.map_append]

end Relabelling

theorem statements_map (f : Token → Token) (events : List Event) :
    (ofEvents (events.map (Event.mapTokens f))).statements =
      (ofEvents events).statements.map (Node.mapTokens f) := by
  simp only [ofEvents, List.filterMap_map, List.map_filterMap]
  congr 1
  funext e
  cases e <;> rfl

/-! ## Separators -/

theorem statements_append (events others : List Event) :
    (ofEvents (events ++ others)).statements =
      (ofEvents events).statements ++ (ofEvents others).statements :=
  List.filterMap_append

/-- A separator ends whatever was going on, as the end of the source would. -/
theorem step_separator (phase : Phase) {t : Token} (h : t.kind.isSeparator = true)
    (final : Token) :
    (step phase t).1 = .between ∧
      (ofEvents (step phase t).2).statements = (ofEvents (finish phase final)).statements := by
  have hstarts : t.kind.startsStatement = false := by
    cases hk : t.kind <;> rw [hk] at h <;> first | rfl | cases h
  cases phase with
  | between => simp [step, begin, h, finish]
  | within printing r =>
    simp only [step, within, h, if_true, finish]
    cases r.finished? with
    | none => simp only [complain, h, if_true, ofEvents, statements_complaints, and_self]
    | some e => exact ⟨rfl, rfl⟩
  | beyond byOne =>
    have hsign : t.kind.isSign = false := by
      cases hk : t.kind <;> rw [hk] at h <;> first | rfl | cases h
    simp only [step, overrun, hsign, Bool.and_false, Bool.false_eq_true, if_false, complain, h,
      if_true, finish, true_and]
    rfl
  | skipping => simp [step, hstarts, h, finish]

/-- The statements around a separator are read one side after the other. -/
theorem statements_read_separator (phase : Phase) (ts us : List Token) {t : Token}
    (h : t.kind.isSeparator = true) (middle final : Token) :
    (ofEvents (read phase (ts ++ t :: us) final)).statements =
      (ofEvents (read phase ts middle)).statements ++
        (ofEvents (read .between us final)).statements := by
  induction ts generalizing phase with
  | nil =>
    obtain ⟨hphase, hstatements⟩ := step_separator phase h middle
    simp only [List.nil_append, read, statements_append, hphase, hstatements]
  | cons u ts ih => simp only [List.cons_append, read, statements_append, ih, List.append_assoc]

end FrontEnd.Recovering

/-- What a source text is read as when it goes on after a line break. -/
theorem FrontEnd.parse_descent_append_break {source : String}
    (h : ∀ d ∈ (Scan.ofSource source).diagnostics, d.message ≠ "Unterminated string.")
    (more : String) :
    (descent.parse (source ++ "\n" ++ more)).statements =
      (descent.parse source).statements ++
        (descent.parse more).statements.map
          (Node.mapTokens (Token.later (Scan.lineBreaks source.toList + 1))) := by
  have hmore := Recovering.read_mapTokens (f := Token.later (Scan.lineBreaks source.toList + 1))
    (fun _ => rfl) .between (Scan.ofSource more).body (Scan.ofSource more).final
  simp only [parse, Recovering.ofScan, Scan.ofSource_append_break h more]
  rw [Recovering.statements_read_separator _ _ _ rfl (Scan.ofSource source).final,
    ← Recovering.statements_map, ← hmore]
  rfl

end Scriptlet
