import CallAudit.Graph.Basic

/-!
# Drawing a call graph

A graph is drawn in the DOT language: every node with its name as a label, then every call as an
arrow. Quotes and backslashes in a name are escaped, so a name cannot end its label.
-/

namespace CallAudit.CallGraph

/-- A name as a quoted label. -/
def dotLabel (name : Text) : Text :=
  let backslash := CodePoint.ofChar '\\'
  let quote := CodePoint.ofNat 0x22
  quote :: (name.flatMap fun c => if c = backslash || c = quote then [backslash, c] else [c]) ++
    [quote]

/-- The line of a node. -/
def dotNode (h : Handle) (name : Text) : Text :=
  "    " ++ Text.ofInt h ++ " [ label = " ++ dotLabel name ++ " ]\n"

/-- The line of a call. -/
def dotCall (c : Call) : Text :=
  "    " ++ Text.ofInt c.source ++ " -> " ++ Text.ofInt c.target ++ " [ ]\n"

/-- The graph in the DOT language: nodes in order, then the calls out of each. -/
def dot (g : CallGraph) : Except GraphFault Text :=
  g.named.map fun nodes =>
    "digraph \x7b\n" ++ nodes.flatMap (fun (h, name) => dotNode h name) ++
      g.handles.flatMap (fun h => (g.callsFrom h).flatMap dotCall) ++ "\x7d\n"

end CallAudit.CallGraph
