import CallAudit.Graph.Basic

/-!
# Pruning synthesized code

Code that the compiler supplies is not audited, and neither is what only such code calls. Pruning
marks the synthesized roots and then works outwards in rounds: all calls out of the nodes that were
marked last are marked, and a callee is marked as soon as every call into it is. What is marked is
removed. A node with one surviving caller stays.
-/

namespace CallAudit.CallGraph

/-- The calls and the nodes that are marked for removal. -/
structure Marks where
  calls : List CallId
  nodes : List Handle

/-- Marks the calls out of the given nodes. -/
def markCallsFrom (g : CallGraph) (m : Marks) (worklist : List Handle) : Marks :=
  { m with calls := m.calls ++ (worklist.flatMap g.callsFrom).map Call.id }

/-- Handles in ascending order. -/
def inOrder (hs : List Handle) : List Handle := hs.mergeSort fun a b => !decide (b < a)

/-- The callees of the given nodes, each once. -/
def calleesOf (g : CallGraph) (worklist : List Handle) : List Handle :=
  inOrder ((worklist.flatMap g.callsFrom).map Call.target).eraseDups

/-- The callees of the given nodes that are not marked although all calls into them are. -/
def overrun (g : CallGraph) (m : Marks) (worklist : List Handle) : List Handle :=
  (g.calleesOf worklist).filter fun h =>
    !m.nodes.contains h && (g.callsInto h).all fun c => m.calls.contains c.id

theorem mem_calleesOf {g : CallGraph} {worklist : List Handle} {h : Handle} :
    h ∈ g.calleesOf worklist ↔ ∃ c ∈ g.calls, c.source ∈ worklist ∧ c.target = h := by
  simp only [calleesOf, inOrder, List.mem_mergeSort, List.mem_eraseDups, List.mem_map,
    List.mem_flatMap, mem_callsFrom]
  constructor
  · rintro ⟨c, ⟨k, hk, hc, rfl⟩, rfl⟩
    exact ⟨c, hc, hk, rfl⟩
  · rintro ⟨c, hc, hk, rfl⟩
    exact ⟨c, ⟨c.source, hk, hc, rfl⟩, rfl⟩

theorem mem_overrun {g : CallGraph} {m : Marks} {worklist : List Handle} {h : Handle} :
    h ∈ g.overrun m worklist ↔
      h ∈ g.calleesOf worklist ∧ h ∉ m.nodes ∧ ∀ c ∈ g.callsInto h, c.id ∈ m.calls := by
  simp [overrun, List.mem_filter]

/-- Marking nodes that were not marked leaves fewer nodes to mark. -/
theorem unmarked_lt {g : CallGraph} {m : Marks} {worklist : List Handle}
    (hnew : g.overrun m worklist ≠ []) :
    (g.handles.filter fun k => !(m.nodes ++ g.overrun m worklist).contains k).length <
      (g.handles.filter fun k => !m.nodes.contains k).length := by
  obtain ⟨h, hh⟩ := List.exists_mem_of_ne_nil _ hnew
  obtain ⟨hcallee, hm, -⟩ := mem_overrun.1 hh
  obtain ⟨c, hc, -, rfl⟩ := mem_calleesOf.1 hcallee
  have hsplit : (g.handles.filter fun k => !(m.nodes ++ g.overrun m worklist).contains k) =
      (g.handles.filter fun k => !m.nodes.contains k).filter fun k =>
        !(g.overrun m worklist).contains k := by
    rw [List.filter_filter]
    congr 1
    funext k
    simp only [List.contains_append, Bool.not_or]
    exact Bool.and_comm _ _
  rw [hsplit]
  apply List.length_filter_lt_length_iff_exists.2
  refine ⟨c.target, List.mem_filter.2 ⟨(live_of_mem_calls hc).2, ?_⟩, ?_⟩
  · simpa using hm
  · simpa using hh

/-- Marks, round by round, what only the nodes of the worklist and the nodes marked before reach. -/
def cascade (g : CallGraph) (m : Marks) (worklist : List Handle) : Marks :=
  match worklist with
  | [] => m
  | k :: rest =>
    let m := g.markCallsFrom m (k :: rest)
    let new := g.overrun m (k :: rest)
    if _h : new = [] then m
    else cascade g { m with nodes := m.nodes ++ new } new
termination_by (g.handles.filter fun k => !m.nodes.contains k).length
decreasing_by exact unmarked_lt (by assumption)

/-- What a pruning removed: names in ascending order and the number of calls. -/
structure PruneResult where
  roots : List Text
  removedNodes : List Text
  removedCalls : Nat
deriving DecidableEq

/-- The names of the given nodes in ascending order. -/
def sortedNames (g : CallGraph) (hs : List Handle) : Except GraphFault (List Text) :=
  (hs.mapM g.nameOf).map fun names => names.mergeSort Text.le

/-- Removes the given roots and what only they reach. -/
def prune (g : CallGraph) (roots : List Handle) : Except GraphFault (PruneResult × CallGraph) :=
  match g.sortedNames roots.eraseDups with
  | .error e => .error e
  | .ok rootNames =>
    let marks := g.cascade { calls := [], nodes := roots.eraseDups } (inOrder roots.eraseDups)
    match g.sortedNames marks.nodes with
    | .error e => .error e
    | .ok removedNodes =>
      match (g.removeCalls marks.calls).removeNodes marks.nodes with
      | (_, .error e) => .error e
      | (pruned, .ok ()) =>
        .ok ({ roots := rootNames, removedNodes, removedCalls := g.callCount - pruned.callCount },
          pruned)

end CallAudit.CallGraph
