import CallAudit.Audit.EntryPoints
import CallAudit.Proofs.Embedding
import CallAudit.Proofs.Pruning
import CallAudit.Proofs.SortedLists

/-!
# Graphs that differ by their handles

Two graphs may have the same nodes under other handles, listed in another order, where each node has
the same calls in the same order (`Isomorphic`). Nothing that is shown tells such graphs apart: a
pruning reports the same and leaves graphs of this kind (`Isomorphic.prune`), and if no two nodes
have one name, the same nodes are chosen as entry points, in the same order
(`Isomorphic.entryPoints`).
-/

namespace CallAudit

namespace CallGraph

variable {φ : Handle → Handle} {g g' : CallGraph} {roots roots' : List Handle}

/-- The nodes of one graph are those of the other under other handles, with the same names and
calls. -/
structure Isomorphic (φ : Handle → Handle) (g g' : CallGraph) : Prop extends Embeds φ g g' where
  handles : ∀ k, k ∈ g'.handles ↔ ∃ h ∈ g.handles, φ h = k

namespace Isomorphic

theorem mem_handles (e : Isomorphic φ g g') {h : Handle} (hh : h ∈ g.handles) : φ h ∈ g'.handles :=
  (e.handles _).2 ⟨h, hh, rfl⟩

/-- Lists of corresponding nodes differ by handles and order. -/
theorem perm_map (e : Isomorphic φ g g') {hs hs' : List Handle} (hlive : ∀ h ∈ hs, h ∈ g.handles)
    (hnodup : hs.Nodup) (hnodup' : hs'.Nodup) (hmem : ∀ k, k ∈ hs' ↔ ∃ h ∈ hs, φ h = k) :
    (hs.map φ).Perm hs' := by
  have hmap : (hs.map φ).Nodup :=
    List.Nodup.map_on (fun h hh k hk => e.injective h (hlive h hh) k (hlive k hk)) hnodup
  refine (List.perm_ext_iff_of_nodup hmap hnodup').2 fun k => ?_
  rw [List.mem_map]
  exact (hmem k).symm

/-- If all nodes of a graph have names, so have those of an isomorphic one. -/
theorem named (e : Isomorphic φ g g') (hg : g.Named) : g'.Named := by
  intro k hk
  obtain ⟨h, hh, rfl⟩ := (e.handles k).1 hk
  rw [e.nameOf h hh]
  exact hg h hh

/-! ## Calls -/

/-- The calls of an isomorphic graph are those of the graph, renamed. -/
theorem mem_calls_iff (e : Isomorphic φ g g') {c' : Call} :
    c' ∈ g'.calls ↔ ∃ c ∈ g.calls, c.rename φ = c' := by
  constructor
  · intro hc'
    obtain ⟨h, hh, hsource⟩ := (e.handles c'.source).1 (live_of_mem_calls hc').1
    have hfrom : c' ∈ g'.callsFrom (φ h) := mem_callsFrom.2 ⟨hc', hsource.symm⟩
    rw [e.callsFrom h hh] at hfrom
    obtain ⟨c, hc, rfl⟩ := List.mem_map.1 hfrom
    exact ⟨c, (mem_callsFrom.1 hc).1, rfl⟩
  · rintro ⟨c, hc, rfl⟩
    exact e.mem_calls hc

/-- Each of them comes from one call of the graph only. -/
theorem perm_calls (e : Isomorphic φ g g') : (g.calls.map (Call.rename φ)).Perm g'.calls := by
  have hnodup : (g.calls.map (Call.rename φ)).Nodup := by
    refine List.Nodup.map_on ?_ (List.Nodup.of_map Call.id g.nodup_calls_id)
    intro c hc d hd hcd
    exact e.eq_of_rename_id_eq hc hd (congrArg Call.id hcd)
  refine (List.perm_ext_iff_of_nodup hnodup (List.Nodup.of_map Call.id g'.nodup_calls_id)).2
    fun c' => ?_
  rw [List.mem_map]
  exact e.mem_calls_iff.symm

theorem callCount_eq (e : Isomorphic φ g g') : g'.callCount = g.callCount := by
  rw [callCount, callCount, ← e.perm_calls.length_eq, List.length_map]

theorem mem_callsInto_iff (e : Isomorphic φ g g') {h : Handle} (hh : h ∈ g.handles) {c' : Call} :
    c' ∈ g'.callsInto (φ h) ↔ ∃ c ∈ g.callsInto h, c.rename φ = c' := by
  rw [mem_callsInto, e.mem_calls_iff]
  constructor
  · rintro ⟨⟨c, hc, rfl⟩, htarget⟩
    have hsame : c.target = h := e.injective _ (live_of_mem_calls hc).2 _ hh htarget
    exact ⟨c, mem_callsInto.2 ⟨hc, hsame⟩, rfl⟩
  · rintro ⟨c, hc, rfl⟩
    obtain ⟨hcalls, rfl⟩ := mem_callsInto.1 hc
    exact ⟨⟨c, hcalls, rfl⟩, rfl⟩

/-! ## Pruning -/

/-- Corresponding roots engulf corresponding nodes. -/
theorem engulfed_iff (e : Isomorphic φ g g') (hroots : ∀ h ∈ g.handles, φ h ∈ roots' ↔ h ∈ roots)
    {h : Handle} (hh : h ∈ g.handles) : g'.Engulfed roots' (φ h) ↔ g.Engulfed roots h := by
  constructor
  · intro hengulfed
    generalize hk : φ h = k at hengulfed
    induction hengulfed generalizing h with
    | root mem =>
      subst hk
      exact .root ((hroots h hh).1 mem)
    | callee called _ ih =>
      subst hk
      -- a call into the one node stands for a call into the other
      obtain ⟨c', hc'⟩ := List.exists_mem_of_ne_nil _ called
      obtain ⟨c, hc, -⟩ := (e.mem_callsInto_iff hh).1 hc'
      refine .callee (List.ne_nil_of_mem hc) fun d hd => ?_
      have hd' : d.rename φ ∈ g'.callsInto (φ h) := (e.mem_callsInto_iff hh).2 ⟨d, hd, rfl⟩
      exact ih (d.rename φ) hd' (live_of_mem_calls (mem_callsInto.1 hd).1).1 rfl
  · intro hengulfed
    induction hengulfed with
    | root mem => exact .root ((hroots _ hh).2 mem)
    | callee called _ ih =>
      obtain ⟨c, hc⟩ := List.exists_mem_of_ne_nil _ called
      refine .callee (List.ne_nil_of_mem ((e.mem_callsInto_iff hh).2 ⟨c, hc, rfl⟩)) fun d' hd' => ?_
      obtain ⟨d, hd, rfl⟩ := (e.mem_callsInto_iff hh).1 hd'
      exact ih d hd (live_of_mem_calls (mem_callsInto.1 hd).1).1

/-- What is left of both graphs differs by handles only. -/
theorem withoutMarked (e : Isomorphic φ g g') (hroots : ∀ h ∈ g.handles, φ h ∈ roots' ↔ h ∈ roots)
    (names names' : List Text) :
    Isomorphic φ (g.withoutMarked roots names) (g'.withoutMarked roots' names') where
  injective h hh k hk :=
    e.injective h (mem_handles_withoutMarked.1 hh).1 k (mem_handles_withoutMarked.1 hk).1
  nameOf h hh := by
    obtain ⟨hlive, hspared⟩ := mem_handles_withoutMarked.1 hh
    have hspared' : ¬ g'.Engulfed roots' (φ h) :=
      fun hk => hspared ((e.engulfed_iff hroots hlive).1 hk)
    rw [nameOf_withoutMarked g roots names hspared, nameOf_withoutMarked g' roots' names' hspared',
      e.nameOf h hlive]
  callsFrom h hh := by
    rw [callsFrom_withoutMarked, callsFrom_withoutMarked,
      e.callsFrom h (mem_handles_withoutMarked.1 hh).1, List.filter_map]
    congr 1
    refine List.filter_congr fun c hc => ?_
    obtain ⟨hsource, htarget⟩ := live_of_mem_calls (mem_callsFrom.1 hc).1
    refine decide_eq_decide.2 (and_congr (not_congr ?_) (not_congr ?_))
    · exact e.engulfed_iff hroots hsource
    · exact e.engulfed_iff hroots htarget
  handles k := by
    rw [mem_handles_withoutMarked, e.handles]
    constructor
    · rintro ⟨⟨h, hh, rfl⟩, hspared⟩
      rw [e.engulfed_iff hroots hh] at hspared
      exact ⟨h, mem_handles_withoutMarked.2 ⟨hh, hspared⟩, rfl⟩
    · rintro ⟨h, hh, rfl⟩
      obtain ⟨hlive, hspared⟩ := mem_handles_withoutMarked.1 hh
      rw [e.engulfed_iff hroots hlive]
      exact ⟨⟨h, hlive, rfl⟩, hspared⟩

/-- Corresponding nodes are listed by the same names. -/
theorem sortedNames_eq (e : Isomorphic φ g g') {hs hs' : List Handle}
    (hlive : ∀ h ∈ hs, h ∈ g.handles) (hnodup : hs.Nodup) (hnodup' : hs'.Nodup)
    (hmem : ∀ k, k ∈ hs' ↔ ∃ h ∈ hs, φ h = k) {names : List Text}
    (h : g.sortedNames hs = .ok names) : g'.sortedNames hs' = .ok names := by
  obtain ⟨read, hread, rfl⟩ := sortedNames_eq_ok.1 h
  have hread' : (hs.map φ).mapM g'.nameOf = .ok read := by
    rw [List.mapM_map, ← hread]
    exact mapM_congr fun h hh => e.nameOf h (hlive h hh)
  obtain ⟨read', hread', hsame⟩ := mapM_perm hread' (e.perm_map hlive hnodup hnodup' hmem)
  refine sortedNames_eq_ok.2 ⟨read', hread', ?_⟩
  exact mergeSort_eq_of_perm Text.le_trans Text.le_total (fun _ _ _ _ => Text.le_antisymm) hsame

/-- Prunings from corresponding roots mark corresponding nodes. -/
theorem mem_marksOf_iff (e : Isomorphic φ g g') (hlive : ∀ h ∈ roots, h ∈ g.handles)
    (hlive' : ∀ h ∈ roots', h ∈ g'.handles) (hroots : ∀ h ∈ g.handles, φ h ∈ roots' ↔ h ∈ roots)
    (k : Handle) : k ∈ (g'.marksOf roots').nodes ↔ ∃ h ∈ (g.marksOf roots).nodes, φ h = k := by
  simp only [mem_nodes_marksOf]
  constructor
  · intro hk
    obtain ⟨h, hh, rfl⟩ := (e.handles k).1 (hk.live hlive')
    exact ⟨h, (e.engulfed_iff hroots hh).1 hk, rfl⟩
  · rintro ⟨h, hh, rfl⟩
    exact (e.engulfed_iff hroots (hh.live hlive)).2 hh

/-- Prunings from corresponding roots report the same. -/
theorem prune (e : Isomorphic φ g g') (hlive : ∀ h ∈ roots, h ∈ g.handles)
    (hroots : ∀ k, k ∈ roots' ↔ ∃ h ∈ roots, φ h = k) {result : PruneResult} {pruned : CallGraph}
    (h : g.prune roots = .ok (result, pruned)) :
    ∃ pruned', g'.prune roots' = .ok (result, pruned') ∧ Isomorphic φ pruned pruned' := by
  obtain ⟨rootNames, read, hrootNames, hread, rfl, rfl⟩ := prune_ok h
  have hlive' : ∀ k ∈ roots', k ∈ g'.handles := by
    intro k hk
    obtain ⟨h, hh, rfl⟩ := (hroots k).1 hk
    exact e.mem_handles (hlive h hh)
  have hsame : ∀ h ∈ g.handles, φ h ∈ roots' ↔ h ∈ roots := by
    intro h hh
    rw [hroots]
    constructor
    · rintro ⟨k, hk, hkh⟩
      rwa [← e.injective k (hlive k hk) h hh hkh]
    · exact fun hmem => ⟨h, hmem, rfl⟩
  -- roots and marked nodes are shown by their names, in ascending order
  have hrootNames' : g'.sortedNames roots'.eraseDups = .ok rootNames := by
    refine e.sortedNames_eq (fun h hh => hlive h (List.mem_eraseDups.1 hh)) (nodup_eraseDups roots)
      (nodup_eraseDups roots') ?_ hrootNames
    simpa only [List.mem_eraseDups] using hroots
  have hnames' : g'.sortedNames (g'.marksOf roots').nodes = .ok (read.mergeSort Text.le) :=
    e.sortedNames_eq (fun h hh => (mem_nodes_marksOf.1 hh).live hlive)
      (marked_marksOf g roots).nodup
      (marked_marksOf g' roots').nodup (e.mem_marksOf_iff hlive hlive' hsame)
      (sortedNames_eq_ok.2 ⟨read, hread, rfl⟩)
  obtain ⟨read', hread', hsorted⟩ := sortedNames_eq_ok.1 hnames'
  have hrest := e.withoutMarked hsame read read'
  refine ⟨g'.withoutMarked roots' read', ?_, hrest⟩
  rw [prune_eq hrootNames' hread', hsorted, e.callCount_eq, hrest.callCount_eq]

end Isomorphic

/-! ## Entry points -/

/-- The entry points do not depend on the order of the nodes if no two nodes have one name. -/
theorem entriesAmong_eq_of_perm (markings : MarkingSource) {nodes nodes' : List (Handle × Text)}
    (hnodup : ∀ a ∈ nodes, ∀ b ∈ nodes, a.2 = b.2 → a = b) (h : nodes.Perm nodes') :
    entriesAmong markings nodes = entriesAmong markings nodes' := by
  refine congrArg (List.map _) (mergeSort_eq_of_perm ?_ ?_ ?_ (h.filter _))
  · exact fun a b c => Text.le_trans a.2 b.2 c.2
  · exact fun a b => Text.le_total a.2 b.2
  · intro a ha b hb hab hba
    exact hnodup a (List.mem_filter.1 ha).1 b (List.mem_filter.1 hb).1 (Text.le_antisymm hab hba)

/-- The entry points are chosen by their names. -/
theorem entriesAmong_rename (markings : MarkingSource) (φ : Handle → Handle)
    (nodes : List (Handle × Text)) :
    entriesAmong markings (nodes.map fun node => (φ node.1, node.2)) =
      (entriesAmong markings nodes).map φ := by
  have hsort (l : List (Handle × Text)) :
      (l.map fun node => (φ node.1, node.2)).mergeSort (fun a b => Text.le a.2 b.2) =
        (l.mergeSort fun a b => Text.le a.2 b.2).map fun node => (φ node.1, node.2) := by
    symm
    apply List.map_mergeSort
    intro a _ b _
    rfl
  rw [entriesAmong, entriesAmong, List.filter_map, hsort, List.map_map, List.map_map]
  rfl

/-- The nodes of a graph that are read with their names. -/
theorem mem_named {nodes : List (Handle × Text)} (h : g.named = .ok nodes) {node : Handle × Text} :
    node ∈ nodes ↔ g.nameOf node.1 = .ok node.2 := by
  obtain ⟨hhandles, hnames⟩ := mapM_beside_eq_ok.1 h
  refine ⟨hnames node, fun hname => ?_⟩
  have hmem : node.1 ∈ nodes.map (·.1) := hhandles ▸ mem_handles_of_nameOf hname
  obtain ⟨node', hnode', hsame⟩ := List.mem_map.1 hmem
  have hname' := hnames node' hnode'
  rw [hsame, hname] at hname'
  rwa [← Prod.ext hsame (Except.ok.inj hname').symm]

theorem nodup_named {nodes : List (Handle × Text)} (h : g.named = .ok nodes) : nodes.Nodup := by
  refine List.Nodup.of_map (·.1) ?_
  rw [(mapM_beside_eq_ok.1 h).1]
  exact g.distinctNodes

theorem entryPoints_eq_ok {markings : MarkingSource} {entries : List Handle} :
    g.entryPoints markings = .ok entries ↔
      ∃ nodes, g.named = .ok nodes ∧ entries = entriesAmong markings nodes := by
  unfold entryPoints
  cases g.named with
  | error fault => simp [Except.map]
  | ok nodes => simp [Except.map, eq_comm]

/-- Entry points belong to the graph. -/
theorem mem_handles_of_entryPoints {markings : MarkingSource} {entries : List Handle}
    (h : g.entryPoints markings = .ok entries) : ∀ k ∈ entries, k ∈ g.handles := by
  obtain ⟨nodes, hnodes, rfl⟩ := entryPoints_eq_ok.1 h
  intro k hk
  obtain ⟨node, hnode, rfl⟩ := List.mem_map.1 hk
  have hmem : node ∈ nodes := (List.mem_filter.1 (List.mem_mergeSort.1 hnode)).1
  exact mem_handles_of_nameOf ((mem_named hnodes).1 hmem)

/-- Where all nodes have names, they can be read. -/
theorem Named.exists_named (hg : g.Named) : ∃ nodes, g.named = .ok nodes := by
  refine mapM_ok fun h hh => ?_
  obtain ⟨name, hname⟩ := hg h hh
  rw [hname]
  exact ⟨(h, name), rfl⟩

/-- Where all nodes have names, entry points can be chosen. -/
theorem Named.entryPoints (hg : g.Named) (markings : MarkingSource) :
    ∃ entries, g.entryPoints markings = .ok entries := by
  obtain ⟨nodes, hnodes⟩ := hg.exists_named
  exact ⟨_, entryPoints_eq_ok.2 ⟨nodes, hnodes, rfl⟩⟩

/-- The same names are read, with other handles and in another order. -/
theorem Isomorphic.perm_named (e : Isomorphic φ g g') {nodes nodes' : List (Handle × Text)}
    (hnodes : g.named = .ok nodes) (hnodes' : g'.named = .ok nodes') :
    (nodes.map fun node => (φ node.1, node.2)).Perm nodes' := by
  have hlive {node : Handle × Text} (hnode : node ∈ nodes) : node.1 ∈ g.handles :=
    mem_handles_of_nameOf ((mem_named hnodes).1 hnode)
  have hnodup : (nodes.map fun node => (φ node.1, node.2)).Nodup := by
    refine List.Nodup.map_on ?_ (nodup_named hnodes)
    intro a ha b hb hab
    obtain ⟨hfst, hsnd⟩ := Prod.mk.inj hab
    exact Prod.ext (e.injective _ (hlive ha) _ (hlive hb) hfst) hsnd
  refine (List.perm_ext_iff_of_nodup hnodup (nodup_named hnodes')).2 fun node' => ?_
  rw [mem_named hnodes', List.mem_map]
  constructor
  · rintro ⟨node, hnode, rfl⟩
    rw [e.nameOf _ (hlive hnode)]
    exact (mem_named hnodes).1 hnode
  · intro hname
    obtain ⟨k, hk, hkey⟩ := (e.handles _).1 (mem_handles_of_nameOf hname)
    rw [← hkey, e.nameOf k hk] at hname
    exact ⟨(k, node'.2), (mem_named hnodes).2 hname, Prod.ext hkey rfl⟩

/-- The same nodes are entry points, in the same order. -/
theorem Isomorphic.entryPoints (e : Isomorphic φ g g') (hg : g.Named) (hdistinct : g.Distinct)
    {markings : MarkingSource} {entries : List Handle} (h : g.entryPoints markings = .ok entries) :
    g'.entryPoints markings = .ok (entries.map φ) := by
  obtain ⟨nodes, hnodes, rfl⟩ := entryPoints_eq_ok.1 h
  obtain ⟨entries', h'⟩ := (e.named hg).entryPoints markings
  obtain ⟨nodes', hnodes', rfl⟩ := entryPoints_eq_ok.1 h'
  -- names tell the nodes apart, so sorting by names leaves no choice
  have hnames : ∀ a ∈ nodes.map (fun node => (φ node.1, node.2)),
      ∀ b ∈ nodes.map (fun node => (φ node.1, node.2)), a.2 = b.2 → a = b := by
    intro a ha b hb hab
    obtain ⟨node, hnode, rfl⟩ := List.mem_map.1 ha
    obtain ⟨node₂, hnode₂, rfl⟩ := List.mem_map.1 hb
    have hname := (mem_named hnodes).1 hnode
    have hname₂ := (mem_named hnodes).1 hnode₂
    rw [← show node.2 = node₂.2 from hab] at hname₂
    exact Prod.ext (congrArg φ (hdistinct _ _ _ hname hname₂)) hab
  rw [h', ← entriesAmong_eq_of_perm markings hnames (e.perm_named hnodes hnodes'),
    entriesAmong_rename]

end CallGraph

end CallAudit
