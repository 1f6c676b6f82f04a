import CallAudit.Graph.Basic

/-!
# Audit reports

An audit looks for calls into functions that require an audit. Such a call is audited when a caller
on the way escorts the group in question, and unaudited otherwise. A report lists both kinds with
the call path from the entry point, in the order in which they were found.
-/

namespace CallAudit

/-- A call on a path: what is called, and where. -/
structure AuditStep where
  identifier : Text
  location : SourceLocation
deriving DecidableEq

/-- A call path from an entry point. -/
abbrev AuditPath := List AuditStep

/-- A call in a line of its own. -/
def AuditStep.shown (s : AuditStep) : Except WriteFault Text :=
  s.location.shown.map fun location => "-> " ++ s.identifier ++ " at " ++ location ++ "\n"

/-- A path with one line for each call. -/
def AuditPath.shown (p : AuditPath) : Except WriteFault Text :=
  (p.mapM AuditStep.shown).map List.flatten

/-- A call that is audited, with the name of the escort. -/
structure AuditedUse where
  escort : Text
  path : AuditPath
deriving DecidableEq

/-- The outcome of an audit. -/
structure AuditReport where
  audited : List AuditedUse
  unaudited : List AuditPath
  entryPoints : List Text := []
deriving DecidableEq

/-- How long a visited call counts as visited. -/
inductive VisitScope
  /-- While the calls from one entry point are followed. -/
  | entryPoint
  /-- For the whole run. -/
  | run
deriving DecidableEq

namespace VisitScope

/-- All scopes. -/
def all : List VisitScope := [.entryPoint, .run]

/-- The word for a scope. -/
def word : VisitScope → Text
  | .entryPoint => "entry_point"
  | .run => "run"

/-- The scope of a word. -/
def ofWord? (t : Text) : Option VisitScope := all.find? (·.word == t)

end VisitScope

/-- Where the marking of a definition is looked up. -/
abbrev MarkingSource := Text → Option Marking

end CallAudit
