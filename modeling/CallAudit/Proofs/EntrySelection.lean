import CallAudit.Proofs.MarkingSources

/-!
# The selection of entry points

Entry points are chosen among the nodes that a pruning leaves: those whose definition is marked,
sorted by their full names (`entryPoints_chosen`). No two nodes share a name, before a pruning or
after it, so the order is strict and does not hang on how nodes with equal names would be sorted
(`pairwise_lt_of_distinct`).
-/

namespace CallAudit.CallGraph

variable {g : CallGraph} {markings : MarkingSource} {entries : List Handle}

theorem isEntry_iff {name : Text} :
    isEntry markings name = true ↔ ∃ m, markings (definitionName name) = some m ∧
      m.isEntryPoint = true := by
  rw [isEntry]
  cases markings (definitionName name) with
  | none => simp
  | some m => simp

/-- Entry points are chosen with their names: the marked nodes, each once, sorted by name. -/
theorem entryPoints_chosen (h : g.entryPoints markings = .ok entries) :
    ∃ chosen : List (Handle × Text), entries = chosen.map (·.1) ∧
      (∀ node, node ∈ chosen ↔ g.nameOf node.1 = .ok node.2 ∧ isEntry markings node.2 = true) ∧
      chosen.Nodup ∧ chosen.Pairwise fun a b => Text.le a.2 b.2 = true := by
  obtain ⟨nodes, hnodes, rfl⟩ := entryPoints_eq_ok.1 h
  refine ⟨_, rfl, fun node => ?_, ?_, ?_⟩
  · rw [List.mem_mergeSort, List.mem_filter, mem_named hnodes]
  · exact (List.mergeSort_perm _ _).nodup_iff.2 ((nodup_named hnodes).filter _)
  · exact List.pairwise_mergeSort (fun a b c => Text.le_trans a.2 b.2 c.2)
      (fun a b => Text.le_total a.2 b.2) _

/-- Nodes that are sorted by names of their own ascend strictly. -/
theorem pairwise_lt_of_distinct (hg : g.Distinct) {chosen : List (Handle × Text)}
    (hnames : ∀ node ∈ chosen, g.nameOf node.1 = .ok node.2) (hnodup : chosen.Nodup)
    (hsorted : chosen.Pairwise fun a b => Text.le a.2 b.2 = true) :
    chosen.Pairwise fun a b => a.2 < b.2 := by
  refine (hsorted.and hnodup).imp_of_mem fun {a b} ha hb hab => ?_
  refine Text.lt_of_le_of_ne hab.1 fun hname => hab.2 ?_
  exact Prod.ext (hg a.1 b.1 a.2 (hnames a ha) (hname ▸ hnames b hb)) hname

/-- The names that a pruning of call records reports are those of the engulfed nodes. -/
theorem mem_removedNodes_surviving {records : List (Text × List CallEdge)} {pruned : PruneResult}
    (h : surviving records = .ok (pruned, g)) {name : Text} :
    name ∈ pruned.removedNodes ↔ ∃ k, (ofRecords records).graph.nameOf k = .ok name ∧
      (ofRecords records).graph.Engulfed (ofRecords records).roots k := by
  obtain ⟨_, read, -, hread, rfl, -⟩ := prune_ok h
  have hmem : name ∈ read ↔
      Except.ok name ∈ ((ofRecords records).graph.marksOf (ofRecords records).roots).nodes.map
        (ofRecords records).graph.nameOf := by
    rw [mapM_eq_ok.1 hread]
    simp
  rw [List.mem_mergeSort, hmem, List.mem_map]
  constructor
  · rintro ⟨k, hk, hname⟩
    exact ⟨k, hname, mem_nodes_marksOf.1 hk⟩
  · rintro ⟨k, hname, hk⟩
    exact ⟨k, mem_nodes_marksOf.2 hk, hname⟩

/-- A name of call records survives a pruning exactly if the pruning does not report it. -/
theorem exists_nameOf_surviving {records : List (Text × List CallEdge)} {pruned : PruneResult}
    (h : surviving records = .ok (pruned, g)) {name : Text} :
    (∃ k, g.nameOf k = .ok name) ↔ name ∈ namesIn records ∧ name ∉ pruned.removedNodes := by
  have hbuilt := built_ofRecords records
  rw [mem_removedNodes_surviving h]
  constructor
  · rintro ⟨k, hname⟩
    obtain ⟨hname, hspared⟩ := (nameOf_surviving h k name).1 hname
    refine ⟨(hbuilt.nameOf_eq_ok.1 hname).1, ?_⟩
    -- a name is reported once, so a node that is engulfed under this name would be the same node
    rintro ⟨k', hname', hengulfed⟩
    exact hspared (hbuilt.distinct k' k name hname' hname ▸ hengulfed)
  · rintro ⟨hname, hkept⟩
    have hnode := hbuilt.nameOf_eq_ok.2 ⟨hname, rfl⟩
    exact ⟨_, (nameOf_surviving h _ name).2 ⟨hnode, fun hengulfed => hkept ⟨_, hnode, hengulfed⟩⟩⟩

/-- **Entry points are exact and in order.** Call records can be pruned, and entry points can be
chosen among the nodes that are left, whatever the markings. These nodes are the ones that are not
engulfed, with their names. The entry points are the nodes among them whose definition is marked as
an entry point, each once, and their full names ascend strictly. So a name of the records is the
name of an entry point exactly if its definition is marked and the name is not among those that the
pruning has removed. -/
theorem entry_points_are_exact (records : List (Text × List CallEdge)) (markings : MarkingSource) :
    ∃ pruned graph entries names,
      surviving records = .ok (pruned, graph) ∧ graph.entryPoints markings = .ok entries ∧
      (∀ k name, graph.nameOf k = .ok name ↔ (ofRecords records).graph.nameOf k = .ok name ∧
        ¬ (ofRecords records).graph.Engulfed (ofRecords records).roots k) ∧
      (∀ k, k ∈ entries ↔ ∃ name m, graph.nameOf k = .ok name ∧
        markings (definitionName name) = some m ∧
        m.isEntryPoint = true) ∧
      (entries.Nodup ∧ entries.mapM graph.nameOf = .ok names ∧ names.Pairwise (· < ·)) ∧
      ∀ name, name ∈ names ↔ (name ∈ namesIn records ∧ name ∉ pruned.removedNodes) ∧
        ∃ m, markings (definitionName name) = some m ∧ m.isEntryPoint = true := by
  obtain ⟨pruned, graph, hsurviving, hnamed, hdistinct⟩ := named_surviving records
  obtain ⟨entries, hentries⟩ := hnamed.entryPoints markings
  obtain ⟨chosen, rfl, hmem, hnodup, hsorted⟩ := entryPoints_chosen hentries
  have hnames : ∀ node ∈ chosen, graph.nameOf node.1 = .ok node.2 :=
    fun node hnode => ((hmem node).1 hnode).1
  have hlt := pairwise_lt_of_distinct hdistinct hnames hnodup hsorted
  refine ⟨pruned, graph, _, chosen.map (·.2), hsurviving, hentries, nameOf_surviving hsurviving,
    fun k => ?_,
    ⟨?_, ?_, List.pairwise_map.2 hlt⟩, fun name => ?_⟩
  · rw [List.mem_map]
    constructor
    · rintro ⟨node, hnode, rfl⟩
      obtain ⟨hname, hentry⟩ := (hmem node).1 hnode
      obtain ⟨m, hm, hm'⟩ := isEntry_iff.1 hentry
      exact ⟨node.2, m, hname, hm, hm'⟩
    · rintro ⟨name, m, hname, hm⟩
      exact ⟨(k, name), (hmem _).2 ⟨hname, isEntry_iff.2 ⟨m, hm⟩⟩, rfl⟩
  · -- a handle has one name, so that nodes with different names have different handles
    refine List.pairwise_map.2 (hnodup.imp_of_mem fun {a b} ha hb hne hhandle => hne ?_)
    have hname := hnames b hb
    rw [← hhandle, hnames a ha] at hname
    exact Prod.ext hhandle (Except.ok.inj hname)
  · rw [mapM_eq_ok, List.map_map, List.map_map]
    exact List.map_congr_left hnames
  · rw [← exists_nameOf_surviving hsurviving, ← isEntry_iff, List.mem_map]
    constructor
    · rintro ⟨node, hnode, rfl⟩
      obtain ⟨hname, hentry⟩ := (hmem node).1 hnode
      exact ⟨⟨node.1, hname⟩, hentry⟩
    · rintro ⟨⟨k, hname⟩, hentry⟩
      exact ⟨(k, name), (hmem _).2 ⟨hname, hentry⟩, rfl⟩

end CallAudit.CallGraph
