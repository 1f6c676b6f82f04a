import CallAudit.Report.Order

/-!
# Reports as text

Every unaudited path is a warning and every audited use a note. A line with the numbers of findings
and entry points ends the report. A finding whose lines are too long to be written out has no text,
and neither has its report.
-/

namespace CallAudit

/-- How serious a diagnostic is. -/
inductive DiagnosticLevel
  | warning
  | note
deriving DecidableEq

/-- The word for a level. -/
def DiagnosticLevel.word : DiagnosticLevel → Text
  | .warning => "warning"
  | .note => "note"

/-- A message about a finding. -/
structure Diagnostic where
  level : DiagnosticLevel
  message : Text
deriving DecidableEq

/-- A diagnostic with its level in front. -/
def Diagnostic.shown (d : Diagnostic) : Text := d.level.word ++ ": " ++ d.message

/-- The warning about an unaudited path, which is shown below it. -/
def Diagnostic.warningAbout (shown : Text) : Diagnostic :=
  { level := .warning, message := "Unaudited use of insecure functions:\n" ++ shown }

/-- The note about an audited use, whose escort and path are shown below it. -/
def Diagnostic.noteAbout (escort shown : Text) : Diagnostic :=
  { level := .note
    message := "Audited use of insecure functions:\n   " ++ escort ++ "\n" ++ shown }

/-- The warning about an unaudited path. -/
def Diagnostic.ofUnaudited (p : AuditPath) : Except WriteFault Diagnostic :=
  p.shown.map warningAbout

/-- The note about an audited use. -/
def Diagnostic.ofAudited (u : AuditedUse) : Except WriteFault Diagnostic :=
  (AuditPath.shown u.path).map (noteAbout u.escort)

namespace AuditReport

/-- The diagnostics of a report, warnings first. -/
def diagnostics (r : AuditReport) : Except WriteFault (List Diagnostic) := do
  let warnings ← r.orderedUnaudited.mapM Diagnostic.ofUnaudited
  let notes ← r.orderedAudited.mapM Diagnostic.ofAudited
  return warnings ++ notes

/-- The line that ends a report. -/
def summary (r : AuditReport) : Text :=
  "Audit completed: " ++ Text.ofNat r.unaudited.length ++ " unaudited, " ++
    Text.ofNat r.audited.length ++ " audited, " ++ Text.ofNat r.entryPoints.length ++
    " entry point(s)"

/-- A report as text: its diagnostics, with an empty line after each, and its summary. -/
def text (r : AuditReport) : Except WriteFault Text :=
  r.diagnostics.map fun ds => Text.join "\n" (ds.map Diagnostic.shown ++ [r.summary ++ "\n"])

end AuditReport

end CallAudit
