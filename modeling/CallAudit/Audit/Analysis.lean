import CallAudit.Audit.EntryPoints
import CallAudit.Audit.Traversal
import CallAudit.Graph.Build
import CallAudit.Graph.Prune

/-!
# Analysing call records

The whole analysis of a list of call records: the graph is built and pruned, entry points are chosen
among the surviving nodes, and the calls from them are audited.
-/

namespace CallAudit

/-- The pruned graph of call records, with what was pruned. -/
def CallGraph.surviving (records : List (Text × List CallEdge)) :
    Except GraphFault (CallGraph.PruneResult × CallGraph) :=
  let built := CallGraph.ofRecords records
  built.graph.prune built.roots

/-- The outcome of an analysis. -/
structure Analysis where
  pruned : CallGraph.PruneResult
  graph : CallGraph
  entries : List Handle
  report : AuditReport

/-- Why an analysis stops early. -/
inductive AnalysisFault
  | audit (fault : AuditFault)
  /-- A name that was given as an entry point belongs to no node. -/
  | absentEntry
deriving DecidableEq

namespace Analysis

/-- Audits from the nodes with the given names. A name without a node stops the audit when its turn
comes. -/
def auditNames (g : CallGraph) (markings : MarkingSource) (scope : VisitScope) (names : List Text) :
    Except AnalysisFault (List Handle × AuditReport) :=
  let handles := names.map g.handleOf
  let entries := (handles.takeWhile Option.isSome).filterMap id
  match g.audit markings scope entries with
  | .error e => .error (.audit e)
  | .ok report => if handles.all Option.isSome then .ok (entries, report) else .error .absentEntry

/-- Analyses call records; without names of entry points the markings decide. -/
def ofRecords (records : List (Text × List CallEdge)) (markings : MarkingSource)
    (scope : VisitScope) (names : Option (List Text)) : Except AnalysisFault Analysis :=
  match CallGraph.surviving records with
  | .error e => .error (.audit (.graph e))
  | .ok (pruned, graph) =>
    match names with
    | some names =>
      match auditNames graph markings scope names with
      | .error e => .error e
      | .ok (entries, report) => .ok { pruned, graph, entries, report }
    | none =>
      match graph.entryPoints markings with
      | .error e => .error (.audit (.graph e))
      | .ok entries =>
        match graph.audit markings scope entries with
        | .error e => .error (.audit e)
        | .ok report => .ok { pruned, graph, entries, report }

end Analysis

end CallAudit
