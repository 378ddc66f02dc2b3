import Scriptlet.FrontEnd.Parsed
import Scriptlet.Reading
import Scriptlet.Scan

/-!
# The recovering front end

Tokens are read one by one into statements. A mistake is reported at the token where it shows and
costs its statement only: tokens are skipped up to the next separator, or up to a word that can
start a statement, and reading goes on there. A separator always ends whatever was going on.

A statement may be nested up to a limit. The token that leads beyond it is still read; what there is
no room for is the operand after it, so the complaint is about the token that comes next, whatever
that is. A complaint needs room as well. Close to the limit, a token that stands where an operand is
wanted is reported, and then reported as nested too deeply because the statement could not be left;
closer still, there is no room for the first of the two.
-/

namespace Scriptlet.FrontEnd.Recovering

/-- What a token that cannot stand where it stands is told. -/
inductive Complaint where
  | expectExpression
  | expectClosing
  | expectSeparator
  | tooDeep
deriving DecidableEq, Repr

namespace Complaint

/-- The wording of a complaint. -/
def message : Complaint → String
  | expectExpression => "Expect expression."
  | expectClosing => "Expect ')' after expression."
  | expectSeparator => "Expect newline or ';' after statement."
  | tooDeep => "Expression nested too deeply."

end Complaint

/-- The nesting that a statement may reach. -/
def nestingLimit : Nat := 974

/-- The nesting that the complaint about a missing operand takes. -/
def complaintLoad : Nat := 2

/-- The nesting that leaving a statement after this complaint takes. -/
def retreatLoad : Nat := 8

/-- What is said about a token that a reading cannot go on with. -/
def complaints (r : Reading) : List Complaint :=
  match r with
  | .wanting _ _ =>
      if r.load + retreatLoad ≤ nestingLimit then [.expectExpression]
      else if r.load + complaintLoad ≤ nestingLimit then [.expectExpression, .tooDeep]
      else [.tooDeep]
  | .holding [] _ _ => [.expectSeparator]
  | .holding _ _ _ => [.expectClosing]

/-- What reading a token gave rise to. -/
inductive Event where
  | statement (node : Node)
  | complaint (token : Token) (complaint : Complaint)
deriving Repr

namespace Event

/-- The statement of an event. -/
def statement? : Event → Option Node
  | statement n => some n
  | complaint _ _ => none

/-- The diagnostic of an event. -/
def diagnostic? : Event → Option Diagnostic
  | statement _ => none
  | complaint t c => some (.atToken t c.message .compile)

end Event

/-- Where in the program the next token stands; `beyond` is inside a statement that has passed the
nesting limit, by one or by more. -/
inductive Phase where
  | between
  | within (printing : Bool) (reading : Reading)
  | beyond (byOne : Bool)
  | skipping
deriving Repr

/-- Complaints about a token. If the token is a separator it also ends the skipping. -/
def complain (t : Token) (cs : List Complaint) : Phase × List Event :=
  (if t.kind.isSeparator then .between else .skipping, cs.map (.complaint t))

/-- Reads a token inside a statement. -/
def within (printing : Bool) (r : Reading) (t : Token) : Phase × List Event :=
  if t.kind.isSeparator then
    match r.finished? with
    | some e => (.between, [.statement (Node.ofExpression printing e)])
    | none => complain t (complaints r)
  else
    match r.step t with
    | some r' =>
        if r'.load ≤ nestingLimit then (.within printing r', [])
        else (.beyond (r'.load == nestingLimit + 1), [])
    | none => complain t (complaints r)

/-- Reads a token beyond the nesting limit. Where it was passed by one there is still room for a
prefix operator, but not for an operand. -/
def overrun (byOne : Bool) (t : Token) : Phase × List Event :=
  if byOne && t.kind.isSign then (.beyond false, []) else complain t [.tooDeep]

/-- Reads a token where a statement may start. -/
def begin (t : Token) : Phase × List Event :=
  if t.kind.isSeparator then (.between, [])
  else if t.kind = .printWord then (.within true .start, [])
  else within false .start t

/-- Reads one token. -/
def step : Phase → Token → Phase × List Event
  | .between, t => begin t
  | .within printing r, t => within printing r t
  | .beyond byOne, t => overrun byOne t
  | .skipping, t =>
      if t.kind.startsStatement then begin t
      else if t.kind.isSeparator then (.between, [])
      else (.skipping, [])

/-- Reads the end of the program. -/
def finish : Phase → Token → List Event
  | .between, _ => []
  | .within printing r, t =>
      match r.finished? with
      | some e => [.statement (Node.ofExpression printing e)]
      | none => (complaints r).map (.complaint t)
  | .beyond _, t => [.complaint t .tooDeep]
  | .skipping, _ => []

/-- Reads the tokens of a program and its end. -/
def read (phase : Phase) : List Token → Token → List Event
  | [], final => finish phase final
  | t :: rest, final =>
      let after := step phase t
      after.2 ++ read after.1 rest final

/-- The statements and the diagnostics among events. -/
def ofEvents (events : List Event) : Parsed :=
  ⟨events.filterMap Event.statement?, events.filterMap Event.diagnostic?⟩

/-- Reads a token list up to its first end-of-file token; none if it has no such token. -/
def parse? (tokens : List Token) : Option Parsed :=
  match tokens.dropWhile (·.kind != .endOfFile) with
  | [] => none
  | final :: _ =>
      some (ofEvents (read .between (tokens.takeWhile (·.kind != .endOfFile)) final))

/-- Reads a scanned source; what the scan found comes before what the parse finds. -/
def ofScan (s : Scan) : Parsed :=
  let r := ofEvents (read .between s.body s.final)
  { r with diagnostics := s.diagnostics ++ r.diagnostics }

end Scriptlet.FrontEnd.Recovering
