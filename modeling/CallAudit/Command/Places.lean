import CallAudit.Command.Run

/-!
# The files of a command

Which paths a command may look at or change. Everything else in the file system is left alone, so
these are all that has to be known to run it.
-/

namespace CallAudit

/-- The paths of a depstore. -/
def depstorePaths (depstore : Path) : List Path :=
  [Ingest.lockFile depstore, Store.tableFile (depstore.child "marking"),
    Store.tableFile (depstore.child "calledge")]

namespace Command

/-- Where a command finds its depstore and its configuration. -/
def places? : Command → Option PlaceOptions
  | .audit o => some o.places
  | .ingest o => some o.places
  | .help => none

/-- The configuration file of a command. -/
def configPaths (c : Command) : List Path :=
  c.places?.toList.map fun o => SettingsTable.configFile (some o.root) o.config

/-- The files that a command names. -/
def namedPaths : Command → List Path
  | .audit o => o.output.toList
  | .ingest o => o.markings.toList ++ o.callEdges.toList
  | .help => []

/-- The depstore of a command. -/
def depstoreOf? (env : Environment) (config : SettingsTable) (c : Command) : Option Path :=
  c.places?.map fun o => o.resolveDepstore env config

/-- The paths that a command works on, once its configuration is known. -/
def workPaths (env : Environment) (config : SettingsTable) (c : Command) : List Path :=
  c.namedPaths ++ (c.depstoreOf? env config).toList.flatMap depstorePaths

end Command

/-- A path with those above it, from the start on. -/
def Path.ancestry (p : Path) : List Path :=
  (List.range p.parts.length).map fun n => { p with parts := p.parts.take (n + 1) }

end CallAudit
