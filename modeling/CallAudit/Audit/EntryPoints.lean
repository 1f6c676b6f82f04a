import CallAudit.Audit.Basic

/-!
# Entry points

Audits start at the nodes whose definition is marked as an entry point: a marking belongs to the
definition, so every instantiation of a marked definition is an entry point.
-/

namespace CallAudit.CallGraph

/-- Whether a definition is marked as an entry point. -/
def isEntry (markings : MarkingSource) (name : Text) : Bool :=
  match markings (definitionName name) with
  | some m => m.isEntryPoint
  | none => false

/-- The entry points among named nodes, in ascending order of their names. -/
def entriesAmong (markings : MarkingSource) (nodes : List (Handle × Text)) : List Handle :=
  ((nodes.filter fun (_, name) => isEntry markings name).mergeSort
    fun a b => Text.le a.2 b.2).map (·.1)

/-- The entry points of a graph, in ascending order of their names. -/
def entryPoints (g : CallGraph) (markings : MarkingSource) : Except GraphFault (List Handle) :=
  g.named.map (entriesAmong markings)

end CallAudit.CallGraph
