import CallAudit.Settings.Environment
import CallAudit.Value.Basic

/-!
# Settings of an audit

A configuration file may have a table of audit settings. An entry of the wrong type counts as
absent.
-/

namespace CallAudit

/-- A table of settings. -/
abbrev SettingsTable := List (Value × Value)

namespace SettingsTable

/-- The truth value of an entry: a word that switches on, or a number other than zero. -/
def truth : Option Value → Bool
  | some (.bool b) => b
  | some (.int i) => i != 0
  | some (.text t) => Environment.isOn t
  | _ => false

/-- The trimmed text of an entry, absent if nothing is left of it. -/
def trimmed : Option Value → Option Text
  | some (.text t) => if (Text.trim t).isEmpty then none else some (Text.trim t)
  | _ => none

/-- The store; a relative path is taken from the given root. -/
def depstore (s : SettingsTable) (root : Option Path) : Option Path :=
  (trimmed (Value.entry? "depstore" s)).map fun t =>
    match root with
    | some r => r.join (.ofText t)
    | none => .ofText t

/-- The report format. -/
def format (s : SettingsTable) : Option Text :=
  (trimmed (Value.entry? "format" s)).map Text.lower

/-- Whether the graph is drawn instead of audited. -/
def dot (s : SettingsTable) : Bool := truth (Value.entry? "dot" s)

/-- The visit scope. -/
def visitScope (s : SettingsTable) : Option Text :=
  (trimmed (Value.entry? "visit_scope" s)).map Text.lower

/-- Settings laid over defaults: an entry that is not null replaces the default, or comes last. -/
def overlay (settings defaults : List (Text × Json)) : List (Text × Json) :=
  settings.foldl (fun merged (name, v) =>
    match v with
    | .null => merged
    | v => Json.setField name v merged) defaults

/-- The table of audit settings in a configuration, empty if there is none. -/
def ofConfig (config : SettingsTable) : SettingsTable :=
  match Value.entry? "audit" config with
  | some (.map entries) => entries
  | _ => []

end SettingsTable

end CallAudit
