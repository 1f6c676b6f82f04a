import CallAudit.Audit.Basic

/-!
# The order of findings in a report

A report is shown in an order that does not depend on how the audit found its findings: unaudited
paths by their steps, audited uses by their escort and then by their steps. Steps are compared by
identifier, file and line.
-/

namespace CallAudit

namespace AuditStep

/-- The order of steps by identifier, file and line. -/
def lt (a b : AuditStep) : Bool :=
  if a.identifier = b.identifier then
    if a.location.file = b.location.file then decide (a.location.line < b.location.line)
    else decide (a.location.file < b.location.file)
  else decide (a.identifier < b.identifier)

end AuditStep

namespace AuditPath

/-- The lexicographic order of paths. -/
def le : AuditPath → AuditPath → Bool
  | [], _ => true
  | _ :: _, [] => false
  | a :: as, b :: bs => if a = b then le as bs else a.lt b

end AuditPath

namespace AuditedUse

/-- The order of audited uses by escort and path. -/
def le (a b : AuditedUse) : Bool :=
  if a.escort = b.escort then AuditPath.le a.path b.path else decide (a.escort < b.escort)

end AuditedUse

namespace AuditReport

/-- The unaudited paths in the order in which they are shown. -/
def orderedUnaudited (r : AuditReport) : List AuditPath := r.unaudited.mergeSort AuditPath.le

/-- The audited uses in the order in which they are shown. -/
def orderedAudited (r : AuditReport) : List AuditedUse := r.audited.mergeSort AuditedUse.le

end AuditReport

end CallAudit
