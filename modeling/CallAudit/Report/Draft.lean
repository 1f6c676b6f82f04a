import CallAudit.Invariant
import CallAudit.Report.Document
import CallAudit.Value.Order

/-!
# Reports with unchecked names

A report that comes from outside may hold anything in place of an identifier or an escort. It can be
shown only if its findings can be ordered and if all names are texts, which is looked at in the
order in which the findings are shown.
-/

namespace CallAudit

/-- A call with an unchecked identifier. -/
structure DraftStep where
  identifier : Json
  location : SourceLocation

/-- An audited use with an unchecked escort. -/
structure DraftUse where
  escort : Json
  path : List DraftStep

/-- A report with unchecked names. -/
structure DraftReport where
  audited : List DraftUse
  unaudited : List (List DraftStep)
  entryPoints : List Text

/-- Why a report cannot be shown. -/
inductive DraftFault
  | unordered (b : BrokenInvariant)
  | invalid (e : Invalid)

namespace DraftStep

/-- What a step is ordered by. -/
def sortKey (s : DraftStep) : Value :=
  .tuple [.ofJson s.identifier, .text s.location.file, .int s.location.line]

/-- The step, if its identifier is a text. -/
def check (s : DraftStep) : Except Invalid AuditStep :=
  AuditStep.format.ofPayload (.obj [
    ("identifier", s.identifier), ("location", SourceLocation.format.toJson s.location)])

/-- The path, if all its identifiers are texts. -/
def checkAll : List DraftStep → Except Invalid AuditPath
  | [] => .ok []
  | s :: rest =>
    match s.check with
    | .error e => .error e
    | .ok step => (checkAll rest).map (step :: ·)

/-- What a path is ordered by. -/
def pathKey (p : List DraftStep) : Value := .tuple (p.map sortKey)

end DraftStep

namespace DraftUse

/-- What an audited use is ordered by. -/
def sortKey (u : DraftUse) : Value := .tuple [.ofJson u.escort, DraftStep.pathKey u.path]

/-- The audited use, if its names are texts. -/
def check (u : DraftUse) : Except Invalid AuditedUse :=
  match DraftStep.checkAll u.path with
  | .error e => .error e
  | .ok path =>
    AuditedUse.format.ofPayload (.obj [
      ("escort", u.escort), ("path", .arr (path.map AuditStep.format.toJson))])

/-- The audited uses, if their names are texts. -/
def checkAll : List DraftUse → Except Invalid (List AuditedUse)
  | [] => .ok []
  | u :: rest =>
    match u.check with
    | .error e => .error e
    | .ok use => (checkAll rest).map (use :: ·)

end DraftUse

namespace DraftReport

/-- Puts findings into the order of their keys. -/
def ordered {α : Type} (source : Text) (key : α → Value) (findings : List α) :
    Except DraftFault (List α) :=
  match Value.sortKeyed false (findings.map fun f => (key f, f)) with
  | .error u => .error (.unordered (.notOrderable source u.message))
  | .ok sorted => .ok (sorted.map (·.2))

/-- The paths, if their identifiers are texts. -/
def checkPaths : List (List DraftStep) → Except Invalid (List AuditPath)
  | [] => .ok []
  | p :: rest =>
    match DraftStep.checkAll p with
    | .error e => .error e
    | .ok path => (checkPaths rest).map (path :: ·)

/-- The report, if it can be shown. -/
def check (d : DraftReport) : Except DraftFault AuditReport := do
  let unaudited ← ordered "report_rendering.ordered_unaudited" DraftStep.pathKey d.unaudited
  let audited ← ordered "report_rendering.ordered_audited" DraftUse.sortKey d.audited
  let audited ← (DraftUse.checkAll audited).mapError .invalid
  let unaudited ← (checkPaths unaudited).mapError .invalid
  return { audited, unaudited, entryPoints := d.entryPoints }

end DraftReport

end CallAudit
