import CallAudit.Files.Path
import CallAudit.Text.System

/-!
# Limits of paths

Paths and the names in them are limited in length. The limits count bytes.
-/

namespace CallAudit.Path

/-- The most bytes that a name may have. -/
def maxNameLength : Nat := 255

/-- The most bytes that a path may have. -/
def maxLength : Nat := 4095

/-- The most bytes that the path of a table may have. -/
def maxTableLength : Nat := 487

end CallAudit.Path
