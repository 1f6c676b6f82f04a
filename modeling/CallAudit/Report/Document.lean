import CallAudit.Record.Format
import CallAudit.Report.Order
import CallAudit.Value.Canonical

/-!
# Reports as JSON

The JSON form of a report holds the numbers of findings and entry points and the findings in the
order in which they are shown.
-/

namespace CallAudit

open Checked

/-- The numbers of a report. -/
structure ReportSummary where
  entryPoints : Int
  audited : Int
  unaudited : Int
deriving DecidableEq

/-- The version of the JSON form. -/
def ReportDocument.formatVersion : Int := 1

/-- The JSON form of a report. -/
structure ReportDocument where
  version : Int := ReportDocument.formatVersion
  summary : ReportSummary
  audited : List AuditedUse := []
  unaudited : List AuditPath := []
deriving DecidableEq

/-- The fields `identifier` and `location`. -/
def AuditStep.format : RecordFormat AuditStep where
  model := "AuditStepDTO"
  check := object "AuditStepDTO" fun fields =>
    (zip (required fields "identifier" text)
      (required fields "location" SourceLocation.format.check)).map
      fun (identifier, location) => { identifier, location }
  toJson s := .obj [
    ("identifier", .str s.identifier), ("location", SourceLocation.format.toJson s.location)]

/-- The fields `escort` and `path`. -/
def AuditedUse.format : RecordFormat AuditedUse where
  model := "AuditedEntryDTO"
  check := object "AuditedEntryDTO" fun fields =>
    (zip (required fields "escort" text)
      (required fields "path" (Checked.list AuditStep.format.check))).map
      fun (escort, path) => { escort, path }
  toJson u := .obj [("escort", .str u.escort), ("path", .arr (u.path.map AuditStep.format.toJson))]

/-- The field `path`. -/
def AuditPath.format : RecordFormat AuditPath where
  model := "UnauditedEntryDTO"
  check := object "UnauditedEntryDTO" fun fields =>
    required fields "path" (Checked.list AuditStep.format.check)
  toJson p := .obj [("path", .arr (p.map AuditStep.format.toJson))]

/-- The fields `entry_points`, `audited` and `unaudited`. -/
def ReportSummary.format : RecordFormat ReportSummary where
  model := "AuditSummaryDTO"
  check := object "AuditSummaryDTO" fun fields =>
    (zip (required fields "entry_points" int)
      (zip (required fields "audited" int) (required fields "unaudited" int))).map
      fun (entryPoints, audited, unaudited) => { entryPoints, audited, unaudited }
  toJson s := .obj [
    ("entry_points", .int s.entryPoints), ("audited", .int s.audited),
    ("unaudited", .int s.unaudited)]

/-- The fields `version`, `summary`, `audited` and `unaudited`. -/
def ReportDocument.format : RecordFormat ReportDocument where
  model := "AuditReportDTO"
  check := object "AuditReportDTO" fun fields =>
    (zip (optional fields "version" formatVersion int)
      (zip (required fields "summary" ReportSummary.format.check)
        (zip (optional fields "audited" [] (Checked.list AuditedUse.format.check))
          (optional fields "unaudited" [] (Checked.list AuditPath.format.check))))).map
      fun (version, summary, audited, unaudited) => { version, summary, audited, unaudited }
  toJson d := .obj [
    ("version", .int d.version), ("summary", ReportSummary.format.toJson d.summary),
    ("audited", .arr (d.audited.map AuditedUse.format.toJson)),
    ("unaudited", .arr (d.unaudited.map AuditPath.format.toJson))]

namespace AuditReport

/-- The JSON form of a report. -/
def document (r : AuditReport) : ReportDocument :=
  { summary := { entryPoints := r.entryPoints.length, audited := r.audited.length,
                 unaudited := r.unaudited.length }
    audited := r.orderedAudited
    unaudited := r.orderedUnaudited }

/-- A report as canonical JSON text. -/
def json (r : AuditReport) : Except WriteFault Text :=
  (Value.prettyJson Value.stackRoom (.ofJson (ReportDocument.format.toJson r.document))).map
    fun t => t ++ "\n"

end AuditReport

end CallAudit
