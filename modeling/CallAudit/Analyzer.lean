import CallAudit.Audit.Analysis
import CallAudit.Depstore.Store
import CallAudit.Graph.Dot

/-!
# Analysing a depstore

An analyzer works on the two stores of a depstore: call edges make up the graph, and markings are
looked up for the surviving nodes. It only reads the depstore. The markings it has looked up stay in
the cache of its store, also when a later look-up fails; so the audit itself looks up nothing.
-/

namespace CallAudit

/-- The stores of a depstore, opened for analysis. -/
structure Analyzer where
  scope : VisitScope
  markings : Store MarkedItem
  calls : Store (List CallEdge)

/-- The pruned graph of a depstore with its entry points. -/
structure GraphView where
  graph : CallGraph
  entries : List Handle

/-- What an analysis leaves: the analyzer with what it has looked up, the log records, and the
result. -/
structure Analyzed (β : Type) where
  analyzer : Analyzer
  journal : List LogRecord
  result : Except Failure β

namespace Analyzer

/-- Where a depstore is unless another place is named. -/
def defaultDepstore : Path := .ofText "target/debug/deps/taurus.depstore"

/-- Opens the stores of a depstore. -/
def openAt (depstore : Path) (scope : VisitScope) : Action Analyzer := do
  let markings ← openMarkings depstore
  let calls ← openCalls depstore
  return { scope, markings, calls }

/-- Closes both stores. -/
def close (a : Analyzer) : Analyzer :=
  { a with markings := a.markings.close, calls := a.calls.close }

/-! ## Log records -/

/-- A debug record below the logger of the analysis. -/
def debug (part message : Text) : LogRecord :=
  { logger := "taurus.analysis." ++ part, level := 10, message }

/-- The record of a graph that has been built. -/
def builtRecord (r : CallGraph.Rooted) : LogRecord :=
  debug "depgraph" ("built dependency graph: " ++ Text.ofNat r.graph.nodeCount ++ " nodes, " ++
    Text.ofNat r.graph.callCount ++ " edges, " ++ Text.ofNat r.roots.length ++ " lang item roots")

/-- The record of a graph that has been pruned. -/
def prunedRecord (p : CallGraph.PruneResult) : LogRecord :=
  debug "depgraph" ("pruned " ++ Text.ofNat p.removedNodes.length ++ " node(s) and " ++
    Text.ofNat p.removedCalls ++ " edge(s) reachable only from lang items")

/-- The record of the entry points that have been found. -/
def entriesRecord (entries : List Handle) : LogRecord :=
  debug "entry_points" ("found " ++ Text.ofNat entries.length ++ " entry points")

/-- The record of an entry point from which calls are followed. -/
def startRecord (name : Text) : LogRecord :=
  debug "audit" ("start traversal from entry point " ++ name)

/-- The record of a finished audit. -/
def finishedRecord (r : AuditReport) : LogRecord :=
  debug "analyzer" ("audit finished: " ++ Text.ofNat r.unaudited.length ++ " unaudited, " ++
    Text.ofNat r.audited.length ++ " audited")

/-! ## Analysis -/

/-- Looks up markings one after another, up to the first that cannot be read. -/
def lookUpAll (files : FileTree) :
    Store MarkedItem → List Text → Store MarkedItem × Except Failure Unit
  | s, [] => (s, .ok ())
  | s, name :: rest =>
    match s.getIn files name with
    | (s, .error e) => (s, .error e)
    | (s, .ok _) => lookUpAll files s rest

/-- The markings in the cache of a store. -/
def cachedMarkings (s : Store MarkedItem) : MarkingSource := fun name =>
  (Json.lookup? name s.cache).map (·.marking)

/-- The definitions behind the nodes of a graph. -/
def definitions (nodes : List (Handle × Text)) : List Text :=
  nodes.map fun (_, name) => definitionName name

/-- The pruned graph of a depstore and its entry points. -/
def view (files : FileTree) (a : Analyzer) : Analyzed GraphView :=
  match a.calls.recordsIn files with
  | (calls, .error e) => { analyzer := { a with calls }, journal := [], result := .error e }
  | (calls, .ok records) =>
    let a := { a with calls }
    let built := CallGraph.ofRecords records
    match built.graph.prune built.roots with
    | .error e =>
      { analyzer := a, journal := [builtRecord built], result := .error (.audit (.graph e)) }
    | .ok (pruned, graph) =>
      let journal := [builtRecord built, prunedRecord pruned]
      match graph.named with
      | .error e => { analyzer := a, journal, result := .error (.audit (.graph e)) }
      | .ok nodes =>
        match lookUpAll files a.markings (definitions nodes) with
        | (markings, .error e) => { analyzer := { a with markings }, journal, result := .error e }
        | (markings, .ok ()) =>
          let entries := CallGraph.entriesAmong (cachedMarkings markings) nodes
          { analyzer := { a with markings }
            journal := journal ++ [entriesRecord entries]
            result := .ok { graph, entries } }

/-- The names of nodes that have one. -/
def namesOf (g : CallGraph) (hs : List Handle) : List Text :=
  hs.filterMap fun h => (g.nameOf h).toOption

/-- The audit of a depstore. -/
def audit (files : FileTree) (a : Analyzer) : Analyzed AuditReport :=
  let v := a.view files
  match v.result with
  | .error e => { v with result := .error e }
  | .ok { graph, entries } =>
    let journal := v.journal ++ (namesOf graph entries).map startRecord
    match graph.audit (cachedMarkings v.analyzer.markings) a.scope entries with
    | .error e => { analyzer := v.analyzer, journal, result := .error (.audit e) }
    | .ok report =>
      { analyzer := v.analyzer, journal := journal ++ [finishedRecord report],
        result := .ok report }

/-- The pruned graph of a depstore in the DOT language. -/
def dot (files : FileTree) (a : Analyzer) : Analyzed Text :=
  let v := a.view files
  match v.result with
  | .error e => { v with result := .error e }
  | .ok { graph, .. } => { v with result := graph.dot.mapError fun e => .audit (.graph e) }

end Analyzer

/-- Carries out an analysis on the files at hand. -/
def Action.analyse {β : Type} (analysis : FileTree → Analyzed β) : Action β := do
  let a := analysis (← Action.files)
  modify fun w => { w with journal := w.journal ++ a.journal }
  Action.ofExcept a.result

end CallAudit
