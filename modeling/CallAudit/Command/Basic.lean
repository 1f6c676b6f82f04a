import CallAudit.Command.Arguments
import CallAudit.Files.Path

/-!
# Commands

There are two commands: one audits a depstore, the other takes records into it. Both may be told
where the depstore and the configuration are.
-/

namespace CallAudit

/-- The options that both commands have. -/
structure PlaceOptions where
  depstore : Option Path
  root : Path
  config : Option Path
deriving DecidableEq

/-- The options of an audit. -/
structure AuditOptions where
  places : PlaceOptions
  dot : Option Bool
  format : Option Text
  output : Option Path
  visitScope : Option Text
deriving DecidableEq

/-- The options of an ingest. -/
structure IngestOptions where
  places : PlaceOptions
  markings : Option Path
  callEdges : Option Path
deriving DecidableEq

/-- What is to be done. -/
inductive Command
  | audit (options : AuditOptions)
  | ingest (options : IngestOptions)
  /-- The usage is asked for. -/
  | help
deriving DecidableEq

namespace Command

/-- The version of the program. -/
def version : Text := "0.1.0"

/-- The option that asks for the usage. -/
def helpOption : OptionSpec := { name := "--help", takesValue := false }

/-- An option with a word as its value. -/
def valued (name : Text) : OptionSpec := { name, takesValue := true }

/-- An option with a path as its value. -/
def located (name : Text) : OptionSpec := { name, takesValue := true, isPath := true }

/-- The options of an audit. -/
def auditSpecs : List OptionSpec := [
  located "--depstore", { name := "--dot", takesValue := false },
  { name := "--no-dot", takesValue := false }, valued "--format", located "--output",
  valued "--visit-scope", located "--root", located "--config", helpOption]

/-- The options of an ingest. -/
def ingestSpecs : List OptionSpec := [
  located "--depstore", located "--markings", located "--call-edges", located "--root",
  located "--config", helpOption]

/-- A path among the given options. -/
def path? (given : GivenOptions) (name : Text) : Option Path := (given.value? name).map .ofText

/-- The places among the given options; the root is the working directory unless given. -/
def placesOf (given : GivenOptions) : PlaceOptions :=
  { depstore := path? given "--depstore"
    root := (path? given "--root").getD (.ofText ".")
    config := path? given "--config" }

/-- The audit with the given options. -/
def auditOf (given : GivenOptions) : Command :=
  .audit {
    places := placesOf given
    dot := given.switch? "--dot" "--no-dot"
    format := given.value? "--format"
    output := path? given "--output"
    visitScope := given.value? "--visit-scope" }

/-- The ingest with the given options. -/
def ingestOf (given : GivenOptions) : Command :=
  .ingest {
    places := placesOf given
    markings := path? given "--markings"
    callEdges := path? given "--call-edges" }

/-- Reads the options of a command, which takes no other arguments. -/
def ofOptions (specs : List OptionSpec) (make : GivenOptions → Command) (args : List Text) :
    Except UsageFault Command :=
  match OptionSpec.readAll specs args with
  | .error problem => .error { problem }
  | .ok (given, rest) =>
    if given.has helpOption.name then .ok .help
    else
      match OptionSpec.pathProblem? specs given with
      | some problem => .error { problem }
      | none =>
        if rest.isEmpty then .ok (make given) else .error { problem := .extraArguments rest }

/-- The name of the command that audits. -/
def auditName : Text := "audit"

/-- The name of the command that takes records in. -/
def ingestName : Text := "ingest"

/-- The commands that the first of the given arguments may have meant. -/
def meantBy : List Text → List Text
  | [] => []
  | arg :: _ => Closeness.suggestions arg [auditName, ingestName]

/-- Refuses arguments that do not start with the name of a command. Options in front of them are
read after all, and it is the argument behind these that is compared with the names of the
commands. -/
def unnamed (name : Text) (args : List Text) : Except UsageFault Command :=
  match OptionSpec.readLeading [helpOption] (name :: args) with
  | .error (problem, rest) => .error { problem, meant := meantBy rest }
  | .ok (given, rest) =>
    if given.has helpOption.name then .ok .help
    else .error { problem := .noSuchCommand name, meant := meantBy rest }

/-- Reads a command by its name. -/
def ofName (name : Text) (args : List Text) : Except UsageFault Command :=
  if name = auditName then ofOptions auditSpecs auditOf args
  else if name = ingestName then ofOptions ingestSpecs ingestOf args
  else unnamed name args

/-- Reads a command. Options may stand before its name. -/
def ofArguments (args : List Text) : Except UsageFault Command :=
  match OptionSpec.readLeading [helpOption] args with
  | .error (problem, _) => .error { problem }
  | .ok (given, rest) =>
    if given.has helpOption.name then .ok .help
    else
      match rest with
      | [] => .error { problem := .missingCommand }
      | name :: args => ofName name args

/-- The usage. -/
def usage : Text :=
  "Usage: call-audit audit [--depstore P] [--dot | --no-dot] [--format text|json] [--output P]\n" ++
  "                        [--visit-scope entry_point|run] [--root P] [--config P]\n" ++
  "       call-audit ingest [--depstore P] [--markings P] [--call-edges P] [--root P]" ++
  " [--config P]\n"

end Command

end CallAudit
