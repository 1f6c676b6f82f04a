import CallAudit.Analyzer
import CallAudit.Command.Basic
import CallAudit.Ingest.Run
import CallAudit.Report.Diagnostic
import CallAudit.Report.Document
import CallAudit.Settings.Config
import CallAudit.Text.ControlSequence
import CallAudit.Text.Escaped

/-!
# Running commands

Options take precedence over the environment, the environment over the configuration, and that over
what holds by default. A failure that is reported ends a command with exit code two; others are
handed on.
-/

namespace CallAudit

/-- What is written to the standard streams. -/
structure Output where
  stdout : Text := []
  stderr : Text := []

/-- Why a command is not carried out to its end. -/
inductive CommandFault
  | usage (fault : UsageFault)
  | failure (failure : Failure)
deriving DecidableEq

/-- What a command leaves. -/
structure CommandResult where
  files : FileTree
  stdout : Text
  stderr : Text
  exit : Except CommandFault Nat

/-- How an audit is shown. -/
inductive ReportView
  /-- The graph in the DOT language. -/
  | dot
  | json
  | text
deriving DecidableEq

/-- An audit with all settings resolved. -/
structure AuditPlan where
  depstore : Path
  scope : VisitScope
  view : ReportView
  output : Option Path
deriving DecidableEq

/-- The depstore: an option, the environment, the configuration or the default decide, in this
order. -/
def PlaceOptions.resolveDepstore (o : PlaceOptions) (env : Environment) (config : SettingsTable) :
    Path :=
  match o.depstore with
  | some p => p
  | none =>
    match env.depstore? none with
    | some p => p
    | none => (config.depstore (some o.root)).getD (o.root.join Analyzer.defaultDepstore)

/-- The audit settings that the options point to. -/
def PlaceOptions.settings (o : PlaceOptions) (files : FileTree) : Except Failure SettingsTable :=
  SettingsTable.loadAudit files (some o.root) o.config

namespace AuditOptions

/-- The word for the report format. -/
def formatWord (o : AuditOptions) (config : SettingsTable) : Text :=
  match o.format with
  | none => config.format.getD "text"
  | some [] => config.format.getD "text"
  | some t => Environment.word t

/-- The word for the visit scope. -/
def scopeWord (o : AuditOptions) (config : SettingsTable) : Text :=
  match o.visitScope <|> config.visitScope with
  | none => VisitScope.entryPoint.word
  | some [] => VisitScope.entryPoint.word
  | some t => Environment.word t

/-- The report format with a given word. -/
def format? (word : Text) : Option ReportView :=
  if word = Text.ofString "text" then some .text
  else if word = Text.ofString "json" then some .json
  else none

/-- Resolves the settings of an audit. -/
def plan (o : AuditOptions) (env : Environment) (config : SettingsTable) :
    Except UsageFault AuditPlan :=
  match format? (o.formatWord config) with
  | none => .error { problem := .invalidValue "--format must be one of: text, json." }
  | some view =>
    match VisitScope.ofWord? (o.scopeWord config) with
    | none =>
      .error {
        problem := .invalidValue ("visit scope must be one of: " ++
          Text.join ", " (VisitScope.all.map VisitScope.word)) }
    | some scope =>
      .ok {
        depstore := o.places.resolveDepstore env config
        scope
        view := if o.dot.getD config.dot then .dot else view
        output := o.output }

end AuditOptions

namespace AuditPlan

/-- Whether an output goes to the standard output. -/
def isStandard (output : Option Path) : Bool :=
  match output with
  | none => true
  | some p => p.text == Text.ofString "-"

/-- Writes a text to the file that was asked for, or to the standard output. -/
def deliver (output : Option Path) (t : Text) : Action Output :=
  match output with
  | none => return { stdout := t }
  | some p =>
    if isStandard output then return { stdout := t }
    else do
      Action.makeDirectories p.parent .file
      match Utf8.encode t with
      | .error fault => throw (.unencodable fault)
      | .ok bytes => Action.write p (.bytes bytes) .file
      return {}

/-- The diagnostics of a report, each with an empty line after it, and its summary. -/
def diagnosticLines (r : AuditReport) : Except WriteFault Text :=
  r.diagnostics.map fun ds =>
    (ds.flatMap fun d => d.shown ++ Text.ofString "\n") ++ r.summary ++ Text.ofString "\n"

/-- What is written out of a report. -/
def written (t : Except WriteFault Text) : Action Text := Action.ofExcept (t.mapError .unwritable)

/-- Carries out an audit. -/
def run (p : AuditPlan) : Action Output := do
  let analyzer ← Analyzer.openAt p.depstore p.scope
  match p.view with
  | .dot => deliver p.output (← Action.analyse analyzer.dot)
  | .json => deliver p.output (← written (← Action.analyse analyzer.audit).json)
  | .text =>
    let report ← Action.analyse analyzer.audit
    if p.output.isSome then deliver p.output (← written report.text)
    else return { stderr := ← written (diagnosticLines report) }

end AuditPlan

namespace Command

/-- Takes records into a depstore and tells how many. -/
def runIngest (depstore : Path) (o : IngestOptions) : Action Output := do
  let summary ← Ingest.run depstore o.markings o.callEdges
  return { stdout := "Ingested " ++ summary.shown depstore ++ "\n" }

/-- The action of a command, once its settings are resolved. -/
def action (env : Environment) (files : FileTree) : Command → Except CommandFault (Action Output)
  | .help => .ok (return { stdout := usage })
  | .audit o => do
    let config ← (o.places.settings files).mapError .failure
    let plan ← (o.plan env config).mapError .usage
    return plan.run
  | .ingest o => do
    if o.markings.isNone && o.callEdges.isNone then
      throw (.usage { problem := .invalidValue "Provide --markings and/or --call-edges." })
    let config ← (o.places.settings files).mapError .failure
    return runIngest (o.places.resolveDepstore env config) o

/-- The lines that are logged at the level that the environment asks for. -/
def logLines (env : Environment) (journal : List LogRecord) : Text :=
  let logger := Logger.setUp {} env none none
  (journal.foldl Logger.log logger).contents Logger.standardError

/-- The exit code after a reported failure. -/
def failureCode : Nat := 2

/-- What the standard error receives: surrogates are escaped. -/
def onStderr (t : Text) : Text := Text.joinNewlines (Text.surrogatesEscaped t)

/-- Runs an action and gathers what it leaves. What it tells is written without control sequences;
what it logs is written as it is. A text for the standard output has to have an encoding. -/
def finish (env : Environment) (files : FileTree) (a : Action Output) : CommandResult :=
  let (result, world) := a.run.run { files, journal := [] }
  let logged := logLines env world.journal
  let left (stdout told : Text) (exit : Except CommandFault Nat) : CommandResult :=
    { files := world.files, stdout, stderr := onStderr (logged ++ Text.withoutSequences told),
      exit }
  match result with
  | .ok out =>
    let stdout := Text.withoutSequences out.stdout
    match Utf8.encode stdout with
    | .ok _ => left (Text.joinNewlines stdout) out.stderr (.ok 0)
    | .error fault => left [] out.stderr (.error (.failure (.unencodable fault)))
  | .error e =>
    if e.isReported then left [] (e.message ++ "\n") (.ok failureCode)
    else left [] [] (.error (.failure e))

/-- Runs the command that the arguments ask for. -/
def run (env : Environment) (args : List Text) (files : FileTree) : CommandResult :=
  let refused (f : CommandFault) : CommandResult :=
    { files, stdout := [], stderr := [], exit := .error f }
  match ofArguments args with
  | .error e => refused (.usage e)
  | .ok command =>
    match command.action env files with
    | .error e => refused e
    | .ok a => finish env files a

end Command

end CallAudit
