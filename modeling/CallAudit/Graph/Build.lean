import CallAudit.Graph.Basic

/-!
# The graph of a list of call records

Callers and callees become nodes in the order in which they first occur, and every call edge becomes
a call of its own. A caller with a call that the compiler supplies is a synthesized root.
-/

namespace CallAudit.CallGraph

/-- A graph with its synthesized roots. -/
structure Rooted where
  graph : CallGraph := {}
  roots : List Handle := []

namespace Rooted

/-- Adds a call of the given caller. -/
def addEdge (caller : Handle) (r : Rooted) (e : CallEdge) : Rooted :=
  let (callee, g) := r.graph.intern e.calleeName
  let (_, g) := g.addCall caller callee e.location
  { graph := g
    roots := if e.isLangItem && !r.roots.contains caller then r.roots ++ [caller] else r.roots }

/-- Adds the calls of one record. -/
def addRecord (r : Rooted) (record : Text × List CallEdge) : Rooted :=
  let (caller, g) := r.graph.intern record.1
  record.2.foldl (addEdge caller) { r with graph := g }

end Rooted

/-- The graph of call records, given by callers with their call edges. -/
def ofRecords (records : List (Text × List CallEdge)) : Rooted := records.foldl Rooted.addRecord {}

end CallAudit.CallGraph
