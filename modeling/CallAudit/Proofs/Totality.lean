import CallAudit.Proofs.RecordOrder
import CallAudit.Value.Order

/-!
# Analyses succeed

Building, pruning, choosing entry points and auditing can each report a broken invariant: a node
that the graph does not know, names that cannot be sorted, a trail that is out of step with the
frames or is not empty in the end. None of this happens for a graph of call records. All its nodes
have names, and pruning keeps it so; names are in a total order, so sorting by them is never refused
(`sortKeyed_texts`); and a visit leaves trail and escorts as it found them, which is empty
(`visit_unwound`).
-/

namespace CallAudit

/-! ## Names can be sorted -/

namespace Value

/-- What is sorted by texts is sorted in the order of these texts. -/
theorem sortKeyed_texts {α β : Type} (key : α → Text) (f : α → β) (l : List α) :
    sortKeyed false (l.map fun a => (.text (key a), f a)) =
      .ok ((l.mergeSort fun a b => Text.le (key a) (key b)).map fun a => (.text (key a), f a)) := by
  have htexts :
      areTotallyOrdered ((l.map fun a => (Value.text (key a), f a)).map (·.1)) = true := by
    simp [areTotallyOrdered, isText]
  have horder (s t : Text) : mayPrecede (.text s) (.text t) = Text.le s t := rfl
  rw [sortKeyed, if_pos htexts, if_neg (by decide)]
  congr 1
  refine (List.map_mergeSort ?_).symm
  intro a _ b _
  rw [horder]

/-- Texts are sorted in their order. -/
theorem sort_texts (texts : List Text) :
    sort .whole false (texts.map .text) = .ok ((texts.mergeSort Text.le).map .text) := by
  have hkeys :
      SortKey.ofAll .whole (texts.map .text) = .ok (texts.map fun t => (.text t, .text t)) := by
    induction texts with
    | nil => rfl
    | cons t texts ih => simp only [List.map_cons, SortKey.ofAll, SortKey.of, ih]
  simp only [sort, hkeys, sortKeyed_texts (fun t => t) Value.text, List.map_map]
  rfl

end Value

namespace CallGraph

/-! ## Nodes are known -/

variable {records : List (Text × List CallEdge)} {g : CallGraph}

/-- The names that a pruning reports are sorted like any other values. -/
theorem sort_of_sortedNames {hs : List Handle} {read names : List Text}
    (hread : hs.mapM g.nameOf = .ok read) (h : g.sortedNames hs = .ok names) :
    Value.sort .whole false (read.map .text) = .ok (names.map .text) := by
  obtain ⟨read', hread', rfl⟩ := sortedNames_eq_ok.1 h
  obtain rfl : read = read' := Except.ok.inj (hread.symm.trans hread')
  exact Value.sort_texts read

/-- Entry points are sorted by their names like any other values. -/
theorem sortKeyed_entriesAmong (markings : MarkingSource) (nodes : List (Handle × Text)) :
    (Value.sortKeyed false ((nodes.filter fun node => isEntry markings node.2).map fun node =>
      (.text node.2, node.1))).map (·.map (·.2)) = .ok (entriesAmong markings nodes) := by
  rw [Value.sortKeyed_texts (fun node : Handle × Text => node.2) (fun node => node.1)]
  simp [entriesAmong, Except.map, Function.comp_def]

end CallGraph

/-! ## Trails are unwound -/

theorem Escorts.eq_empty {e : Escorts} (h : ∀ group, e.active group = none) : e = {} := by
  obtain ⟨nodes⟩ := e
  cases nodes with
  | nil => rfl
  | cons node nodes =>
    have hnode := h node.1
    simp [active] at hnode

namespace Traversal

variable {g : CallGraph} {markings : MarkingSource} {t t' : Traversal} {entry : Handle}

/-- A visit that succeeds ends with an empty trail and without escorts. -/
theorem visit_unwound (h : t.visit g markings entry = (t', .ok ())) :
    t'.trail = [] ∧ t'.escorts = {} := by
  obtain ⟨w, hfollows, hw, rfl⟩ := visit_ok h
  refine ⟨hw, Escorts.eq_empty fun group => ?_⟩
  -- the walk began without escorts, and following calls to their end puts all of them back
  exact hfollows.samePlace.2 group

end Traversal

namespace Analysis

open CallGraph

/-- **Analyses succeed.** Call records, whether or not callers repeat, can be pruned, entry points
can be chosen among the nodes that are left, and the calls from them can be audited: no fault of any
kind is reported, and the names that are sorted on the way are values that sorting does not refuse.
Every visit of an entry point ends with an empty trail and without escorts. -/
theorem analysis_succeeds (records : List (Text × List CallEdge)) (markings : MarkingSource)
    (scope : VisitScope) :
    ∃ a, ofRecords records markings scope none = .ok a ∧
      surviving records = .ok (a.pruned, a.graph) ∧
      a.graph.entryPoints markings = .ok a.entries ∧
        a.graph.audit markings scope a.entries = .ok a.report ∧
      (∃ roots removed nodes,
        (CallGraph.ofRecords records).roots.eraseDups.mapM
          (CallGraph.ofRecords records).graph.nameOf = .ok roots ∧
        Value.sort .whole false (roots.map .text) = .ok (a.pruned.roots.map .text) ∧
        ((CallGraph.ofRecords records).graph.marksOf (CallGraph.ofRecords records).roots).nodes.mapM
          (CallGraph.ofRecords records).graph.nameOf = .ok removed ∧
        Value.sort .whole false (removed.map .text) = .ok (a.pruned.removedNodes.map .text) ∧
        a.graph.named = .ok nodes ∧
        (Value.sortKeyed false ((nodes.filter fun node => isEntry markings node.2).map fun node =>
          (.text node.2, node.1))).map (·.map (·.2)) = .ok a.entries) ∧
      ∀ i entry, a.entries[i]? = some entry →
        ∃ before after, Traversal.visitAll a.graph markings { scope } (a.entries.take i) =
          (before, .ok ()) ∧
          before.visit a.graph markings entry = (after, .ok ()) ∧ after.trail = [] ∧
            after.escorts = {} := by
  obtain ⟨pruned, graph, hsurviving, hnamed, -⟩ := named_surviving records
  obtain ⟨entries, hentries⟩ := hnamed.entryPoints markings
  have hlive := mem_handles_of_entryPoints hentries
  obtain ⟨report, hreport⟩ := Traversal.run_named (t := { scope }) hnamed markings rfl hlive
  refine ⟨⟨pruned, graph, entries, report⟩, ofRecords_eq_ok hsurviving hentries hreport,
    hsurviving, hentries,
    hreport, ?_, ?_⟩
  · obtain ⟨rootNames, removed, hroots, hremoved, rfl, -⟩ := prune_ok hsurviving
    obtain ⟨roots, hread, -⟩ := sortedNames_eq_ok.1 hroots
    obtain ⟨nodes, hnodes, rfl⟩ := entryPoints_eq_ok.1 hentries
    exact ⟨roots, removed, nodes, hread, sort_of_sortedNames hread hroots, hremoved,
      Value.sort_texts removed,
      hnodes, sortKeyed_entriesAmong markings nodes⟩
  · intro i entry hentry
    obtain ⟨t', -, hall, -⟩ := Traversal.run_ok hreport
    obtain ⟨before, after, -, -, hbefore, hvisit, -⟩ := Traversal.recordings_of_visitAll hall hentry
    exact ⟨before, after, hbefore, hvisit, Traversal.visit_unwound hvisit⟩

end Analysis

end CallAudit
