import Scriptlet.Proofs.Running.Statements
import Scriptlet.Proofs.Syntax.Grammar

/-!
# How a run can fail

A tree whose literals are literals, whose numerals are numbers and whose operators stand where they
belong (`Node.Computable`) is evaluated to a value or to an ordinary fault (`Fault.Ordinary`): it is
too deep, or it fails at a name or an operator, never at a text, and for a cause that is one of the
program's. Evaluation is put together from smaller evaluations, and so is the statement about its
faults (`Evaluation.FaultsAre`): one lemma for each way of putting together, then one case for each
form of node.

An ordinary fault of a statement has a diagnostic, so statements of such trees run to their end
whatever happens, and nothing that only other trees call for is ever said (`Run.Ends.of_runnable`).
-/

namespace Scriptlet

/-- Causes that arise only in trees that the grammar does not allow. -/
def Cause.isInternal : Cause → Bool
  | unexpectedLiteral | unknownUnary => true
  | _ => false

/-- Faults that a tree of the grammar can have. -/
inductive Fault.Ordinary : Fault → Prop
  | failed {t : Token} {cause : Cause} (notText : t.kind ≠ .string)
      (notInternal : cause.isInternal = false) : Ordinary (.failed t cause)
  | tooDeep : Ordinary .tooDeep

/-! ## Operations -/

namespace Operation

theorem repetition_isInternal {s : String} {x : Float} {count : Int} {cause : Cause}
    (h : repetition s x count = .error cause) : cause.isInternal = false := by
  simp only [repetition] at h
  split at h
  · cases h
  split at h
  · cases h
    rfl
  · cases h

theorem fraction_isInternal {s : String} {divisor : Int} {cause : Cause}
    (h : fraction s divisor = .error cause) : cause.isInternal = false := by
  simp only [fraction] at h
  split at h
  · cases h
    rfl
  · cases h

theorem withFinite_isInternal {x : Float} {part : Option Int} {f : Int → Except Cause Value}
    {cause : Cause} (hf : ∀ n, f n = .error cause → cause.isInternal = false)
    (h : withFinite x part f = .error cause) : cause.isInternal = false := by
  cases part with
  | none =>
    cases h
    rfl
  | some n => exact hf n h

theorem textNumber?_isInternal {k : Kind} {s : String} {x : Float} {cause : Cause}
    (h : textNumber? k s x = some (.error cause)) : cause.isInternal = false := by
  cases k with
  | star => exact withFinite_isInternal (fun _ => repetition_isInternal) (Option.some.inj h)
  | slash => exact withFinite_isInternal (fun _ => fraction_isInternal) (Option.some.inj h)
  | _ => cases h

/-- An operator is refused for a cause of the program's own. -/
theorem apply_isInternal {k : Kind} {a b : Value} {cause : Cause}
    (h : apply k a b = .error cause) : cause.isInternal = false := by
  unfold apply at h
  cases hm : meaning? k a b with
  | none =>
    rw [hm] at h
    cases h
    rfl
  | some result =>
    rw [hm] at h
    obtain rfl : result = .error cause := h
    unfold meaning? at hm
    split at hm
    · obtain ⟨v, -, hv⟩ := Option.map_eq_some_iff.1 hm
      cases hv
    · obtain ⟨v, -, hv⟩ := Option.map_eq_some_iff.1 hm
      cases hv
    · exact textNumber?_isInternal hm
    · split at hm <;> cases hm
    · cases hm

end Operation

/-! ## Evaluations -/

namespace Evaluation

variable {α β : Type} {sort : Fault → Prop}

/-- Every fault that an evaluation can end with is of the given sort. -/
def FaultsAre (sort : Fault → Prop) (x : Evaluation α) : Prop :=
  ∀ (m : Memory) (fault : Fault) (m' : Memory), x.run m = .error fault m' → sort fault

namespace FaultsAre

theorem pure (a : α) : FaultsAre sort (pure a) := by
  intro m fault m' h
  cases h

theorem throw {fault : Fault} (h : sort fault) : FaultsAre sort (throw fault : Evaluation α) := by
  intro m fault' m' heq
  cases heq
  exact h

theorem bind {x : Evaluation α} {f : α → Evaluation β} (hx : FaultsAre sort x)
    (hf : ∀ a, FaultsAre sort (f a)) : FaultsAre sort (x >>= f) := by
  intro m fault m' h
  rw [EStateM.run_bind] at h
  cases hrun : x.run m with
  | ok a m'' =>
    rw [hrun] at h
    exact hf a m'' fault m' h
  | error fault' m'' =>
    rw [hrun] at h
    cases h
    exact hx m fault m' hrun

theorem get : FaultsAre sort (get : Evaluation Memory) := by
  intro m fault m' h
  cases h

theorem modify (f : Memory → Memory) : FaultsAre sort (modify f : Evaluation PUnit) := by
  intro m fault m' h
  cases h

theorem fail {t : Token} {cause : Cause} (notText : t.kind ≠ .string)
    (notInternal : cause.isInternal = false) :
    FaultsAre Fault.Ordinary (fail t cause : Evaluation α) :=
  throw (.failed notText notInternal)

end FaultsAre

end Evaluation

/-! ## Trees that can be computed -/

namespace Node

/-- Trees that evaluation can work on: literals and numerals are what they should be, and operators
stand where they belong. -/
inductive Computable : Node → Prop
  | literal {t : Token} (kind : t.kind.isLiteral = true)
      (numeral : t.kind = .number → (Numeral.value? t.lexeme).isSome = true) :
      Computable (.literal t)
  | grouping {e : Node} (inner : Computable e) : Computable (.grouping e)
  | unary {op : Token} {e : Node} (sign : op.kind.isSign = true) (operand : Computable e) :
      Computable (.unary op e)
  | binary {l r : Node} {op : Token} (operator : op.kind.rank?.isSome = true)
      (left : Computable l) (right : Computable r) : Computable (.binary l op r)

/-- Statements that can be run. -/
inductive Runnable : Node → Prop
  | expression {e : Node} (body : Computable e) : Runnable (.expression e)
  | print {e : Node} (body : Computable e) : Runnable (.print e)

end Node

theorem Kind.ne_string_of_rank? {k : Kind} (h : k.rank?.isSome = true) : k ≠ .string := by
  rintro rfl
  cases h

theorem Kind.ne_string_of_isSign {k : Kind} (h : k.isSign = true) : k ≠ .string := by
  rintro rfl
  cases h

namespace Evaluation

open Node (Computable Runnable)

theorem literal_faults {t : Token} (h : (Node.literal t).Computable) :
    FaultsAre Fault.Ordinary (literal t) := by
  cases h with
  | literal hkind hnumeral =>
  unfold literal
  split
  · next hnumber =>
    obtain ⟨x, hx⟩ := Option.isSome_iff_exists.1 (hnumeral hnumber)
    rw [hx]
    exact .pure _
  · exact .pure _
  · exact .pure _
  · exact .pure _
  · exact .pure _
  · next hidentifier =>
    refine .bind .get fun m => ?_
    cases m.scopes.get? t.lexeme with
    | some v => exact .pure v
    | none => exact .fail (by rw [hidentifier]; decide) rfl
  · next hnumber hstring htrue hfalse hnull hidentifier =>
    cases hk : t.kind <;> rw [hk] at hkind <;> contradiction

theorem prefixed_faults {op : Token} (h : op.kind.isSign = true) (v : Value) :
    FaultsAre Fault.Ordinary (prefixed op v) := by
  have hfail : ∀ type, FaultsAre Fault.Ordinary
      (fail op (.operandNotNumber type) : Evaluation Value) :=
    fun type => .fail (Kind.ne_string_of_isSign h) rfl
  cases v with
  | number x =>
    rcases Kind.isSign_iff.1 h with hk | hk <;> simp only [prefixed, hk] <;> exact .pure _
  | null | text | failure | foreign => exact hfail _

theorem operation_faults {op : Token} (h : op.kind.rank?.isSome = true) (a b : Value) :
    FaultsAre Fault.Ordinary (operation op a b) := by
  unfold operation
  cases happly : Operation.apply op.kind a b with
  | ok v => exact .pure v
  | error cause => exact .fail (Kind.ne_string_of_rank? h) (Operation.apply_isInternal happly)

/-- A tree that can be computed has ordinary faults only. -/
theorem evaluate_faults {e : Node} (h : e.Computable) (levels : Nat) :
    FaultsAre Fault.Ordinary (evaluate levels e) := by
  induction h generalizing levels with
  | literal hkind hnumeral =>
    cases levels with
    | zero => exact .throw .tooDeep
    | succ levels => exact literal_faults (.literal hkind hnumeral)
  | grouping _ ih =>
    cases levels with
    | zero => exact .throw .tooDeep
    | succ levels => exact ih levels
  | unary hsign _ ih =>
    cases levels with
    | zero => exact .throw .tooDeep
    | succ levels => exact .bind (ih levels) fun v => prefixed_faults hsign v
  | @binary l r op hoperator _ _ ihl ihr =>
    cases levels with
    | zero => exact .throw .tooDeep
    | succ levels =>
      rw [evaluate]
      split
      · cases target? l with
        | none => exact .fail (Kind.ne_string_of_rank? hoperator) rfl
        | some name =>
          exact .bind (ihr _) fun v => .bind (.modify _) fun _ => .pure v
      · refine .bind (ihl levels) fun left => ?_
        split
        · exact .bind (ihr levels) fun right => .pure _
        · exact .pure _
      · refine .bind (ihl levels) fun left => ?_
        split
        · exact .pure _
        · exact .bind (ihr levels) fun right => .pure _
      · exact .bind (ihl levels) fun left => .bind (ihr levels) fun right =>
          operation_faults hoperator left right

end Evaluation

/-! ## Statements that can be run -/

namespace Node

theorem Computable.line_ok {e : Node} (h : e.Computable) : ∃ line, e.line = .ok line := by
  induction h with
  | literal | unary => exact ⟨_, rfl⟩
  | grouping _ ih => exact ih
  | binary _ _ _ ihl _ => exact ihl

theorem Runnable.line_ok {s : Node} (h : s.Runnable) : ∃ line, s.line = .ok line := by
  cases h with
  | expression he | print he => exact he.line_ok

theorem Computable.format_ne {e : Node} (h : e.Computable) (n : Node) :
    ∀ levels, e.format levels ≠ .error (.outOfPlace n) := by
  induction h with
  | literal => rintro (_ | levels) heq <;> cases heq
  | grouping _ ih | unary _ _ ih =>
    rintro (_ | levels) heq
    · cases heq
    · simp only [format, bind, Except.bind] at heq
      split at heq
      · next hinner =>
        cases heq
        exact ih levels hinner
      · cases heq
  | binary _ _ _ ihl ihr =>
    rintro (_ | levels) heq
    · cases heq
    · simp only [format, bind, Except.bind] at heq
      split at heq
      · next hleft =>
        cases heq
        exact ihl levels hleft
      split at heq
      · next hright =>
        cases heq
        exact ihr levels hright
      · cases heq

theorem Runnable.format_ne {s : Node} (h : s.Runnable) (n : Node) :
    ∀ levels, s.format levels ≠ .error (.outOfPlace n) := by
  rintro (_ | levels) heq
  · cases heq
  cases h with
  | expression he => exact he.format_ne n levels heq
  | print he =>
    simp only [format, bind, Except.bind] at heq
    split at heq
    · next hinner =>
      cases heq
      exact he.format_ne n levels hinner
    · cases heq

end Node

namespace Run

open Evaluation (FaultsAre)

theorem execute_faults {s : Node} (h : s.Runnable) : FaultsAre Fault.Ordinary (execute s) := by
  cases h with
  | expression he =>
    exact .bind (Evaluation.evaluate_faults he _) fun v => .bind (.modify _) fun _ => .pure _
  | print he => exact .bind (Evaluation.evaluate_faults he _) fun v => .pure _

theorem performed_faults {s : Node} (h : s.Runnable) {scopes scopes' : Scopes Value} {fault : Fault}
    (hperformed : performed s scopes = .error fault scopes') : fault.Ordinary := by
  unfold performed at hperformed
  cases hrun : (execute s).run { scopes } with
  | ok result m =>
    rw [hrun] at hperformed
    cases hperformed
  | error fault' m =>
    rw [hrun] at hperformed
    cases hperformed
    exact execute_faults h _ _ _ hrun

/-- A statement that can be run has ordinary faults only. -/
theorem attempt_faults {s : Node} (h : s.Runnable) {detail : Nat} {scopes scopes' : Scopes Value}
    {fault : Fault} (hattempt : attempt detail s scopes = .error fault scopes') :
    fault.Ordinary := by
  unfold attempt at hattempt
  split at hattempt
  · split at hattempt
    · exact performed_faults h hattempt
    · cases hattempt
      exact .tooDeep
    · next n hformat => exact absurd hformat (h.format_ne n _)
  · exact performed_faults h hattempt

theorem diagnose_ok {s : Node} (h : s.Runnable) {fault : Fault} (hfault : fault.Ordinary) :
    ∃ d, diagnose s fault = .ok d := by
  cases hfault with
  | failed => exact ⟨_, rfl⟩
  | tooDeep =>
    obtain ⟨line, hline⟩ := h.line_ok
    exact ⟨.atLine line tooDeepMessage .runtime, by simp only [diagnose, hline]⟩

/-- What an effect of statements that can be run looks like: it ends with a value, and each of its
diagnostics tells of an ordinary fault in one of the statements. -/
structure Ends (nodes : List Node) (e : Effect) : Prop where
  finishes : ∃ v, e.outcome = .ok v
  tells : ∀ d ∈ e.diagnostics, ∃ s ∈ nodes, ∃ fault : Fault, fault.Ordinary ∧
    diagnose s fault = .ok d

namespace Ends

theorem told {s : Node} (h : s.Runnable) (detail : Nat) (scopes : Scopes Value) :
    Ends [s] (told s (attempt detail s scopes)) := by
  cases hattempt : attempt detail s scopes with
  | ok result scopes' => exact ⟨⟨result.1, rfl⟩, fun d hd => absurd hd List.not_mem_nil⟩
  | error fault scopes' =>
    have hfault := attempt_faults h hattempt
    obtain ⟨d, hd⟩ := diagnose_ok h hfault
    simp only [Run.told, hd]
    refine ⟨⟨.failure d, rfl⟩, fun d' hd' => ⟨s, List.mem_singleton.2 rfl, fault, hfault, ?_⟩⟩
    rw [hd, List.mem_singleton.1 hd']

theorem andThen {nodes others : List Node} {e : Effect} {next : Scopes Value → Value → Effect}
    (h : Ends nodes e) (hnext : ∀ scopes v, Ends others (next scopes v)) :
    Ends (nodes ++ others) (e.andThen next) := by
  obtain ⟨v, hv⟩ := h.finishes
  have hafter := hnext e.scopes v
  simp only [Effect.andThen, hv]
  refine ⟨hafter.finishes, fun d hd => ?_⟩
  rcases List.mem_append.1 hd with hd | hd
  · obtain ⟨s, hs, hfault⟩ := h.tells d hd
    exact ⟨s, List.mem_append_left _ hs, hfault⟩
  · obtain ⟨s, hs, hfault⟩ := hafter.tells d hd
    exact ⟨s, List.mem_append_right _ hs, hfault⟩

/-- Statements that can be run are run to their end. -/
theorem of_runnable {nodes : List Node} (h : ∀ s ∈ nodes, s.Runnable) (detail : Nat)
    (scopes : Scopes Value) (v : Value) : Ends nodes (statements detail nodes scopes v) := by
  have hquiet : Ends nodes (statements detail nodes scopes v).withoutNotes := by
    induction nodes generalizing scopes v with
    | nil => exact ⟨⟨v, rfl⟩, fun d hd => absurd hd List.not_mem_nil⟩
    | cons s nodes ih =>
      rw [withoutNotes_statements_cons]
      exact (told (h s List.mem_cons_self) detail scopes).andThen fun scopes v =>
        ih (fun s' hs' => h s' (List.mem_cons_of_mem _ hs')) scopes v
  exact ⟨hquiet.finishes, hquiet.tells⟩

end Ends

end Run

end Scriptlet
