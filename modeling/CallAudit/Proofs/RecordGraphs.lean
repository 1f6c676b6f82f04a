import CallAudit.Proofs.Handles
import CallAudit.Proofs.RecordOrder

/-!
# What a graph of call records holds

The graph of call records holds what the records say and nothing else
(`CallGraph.ofRecords_is_exact`). Its nodes are the names that occur, numbered in the order of their
first occurrence. The calls out of a node are the edges of all records of this caller, listed by
callee: an edge either starts a bundle of its own or joins the bundle of its callee
(`CallGraph.gathers_addSite`), so the bundles of a caller gather its edges whatever comes in between
(`CallGraph.gathers_bundleUp`).
-/

namespace CallAudit.CallGraph

/-! ## Grouping -/

/-- Elements that are taken by their keys, one key after the other, are all taken once. -/
theorem perm_flatMap_filter {α β : Type} [BEq β] [LawfulBEq β] (f : α → β) {keys : List β}
    (hkeys : keys.Nodup) {l : List α} (h : ∀ a ∈ l, f a ∈ keys) :
    (keys.flatMap fun k => l.filter fun a => f a == k).Perm l := by
  induction keys generalizing l with
  | nil =>
    have hl : l = [] :=
      List.eq_nil_iff_forall_not_mem.2 fun a ha => absurd (h a ha) List.not_mem_nil
    rw [hl]
    exact .refl _
  | cons k keys ih =>
    obtain ⟨hk, hkeys⟩ := List.nodup_cons.1 hkeys
    -- the later keys find their elements among those without the first key
    have hlater : (keys.flatMap fun k' => l.filter fun a => f a == k') =
        keys.flatMap fun k' => (l.filter fun a => !(f a == k)).filter fun a => f a == k' := by
      refine List.flatMap_congr fun k' hk' => ?_
      rw [List.filter_filter]
      refine List.filter_congr fun a _ => ?_
      have hne : k' ≠ k := fun e => hk (e ▸ hk')
      by_cases ha : f a = k'
      · simp [ha, hne]
      · simp [ha]
    have hrest : ∀ a ∈ l.filter fun a => !(f a == k), f a ∈ keys := by
      intro a ha
      obtain ⟨ha, hne⟩ := List.mem_filter.1 ha
      exact (List.mem_cons.1 (h a ha)).resolve_left (by simpa using hne)
    rw [List.flatMap_cons, hlater]
    exact ((ih hkeys hrest).append_left _).trans (List.filter_append_perm _ l)

/-- The calls that a caller makes by its edges, as a graph lists them: by callee, the callees in the
order in which they are first called, and the calls of a callee in their own order, with keys from
zero on. -/
def callsBy (place : Text → Handle) (caller : Text) (edges : List CallEdge) : List Call :=
  (edges.map CallEdge.calleeName).eraseDups.flatMap fun callee =>
    (edges.filter fun e => e.calleeName == callee).mapIdx fun i e =>
      { source := place caller, target := place callee, key := i, location := e.location }

/-- Each edge makes one call. -/
theorem perm_callsBy (place : Text → Handle) (caller : Text) (edges : List CallEdge) :
    ((callsBy place caller edges).map fun c => (c.target, c.location)).Perm
      (edges.map fun e => (place e.calleeName, e.location)) := by
  have hgroup (callee : Text) :
      ((edges.filter fun e => e.calleeName == callee).mapIdx fun i e =>
        ({ source := place caller, target := place callee, key := i, location := e.location } :
          Call)).map
          (fun c => (c.target, c.location)) =
        (edges.filter fun e => e.calleeName == callee).map fun e =>
          (place e.calleeName, e.location) := by
    refine List.ext_getElem (by simp) fun i _ hi => ?_
    rw [List.length_map] at hi
    have hcallee := (List.mem_filter.1 (List.getElem_mem hi)).2
    rw [List.getElem_map, List.getElem_mapIdx, List.getElem_map, beq_iff_eq.1 hcallee]
  rw [callsBy, List.map_flatMap]
  simp only [hgroup]
  rw [← List.map_flatMap]
  refine List.Perm.map _ (perm_flatMap_filter CallEdge.calleeName (nodup_eraseDups _)
    fun e he => ?_)
  exact List.mem_eraseDups.2 (List.mem_map_of_mem he)

/-! ## Bundles of one caller -/

/-- As long as no call is removed, keys are counted. -/
theorem freshKey_range (n : Nat) : freshKey (List.range n) = n := by
  rw [freshKey, List.length_range]
  cases n with
  | zero => rfl
  | succ n => simp [firstUnused]

/-- The call sites of a callee among the edges of a caller, with their keys. -/
def sitesOf (edges : List CallEdge) (callee : Text) : List (Nat × SourceLocation) :=
  (edges.filter fun e => e.calleeName == callee).mapIdx fun i e => (i, e.location)

/-- The calls of a callee are numbered from zero on. -/
theorem keys_sitesOf (edges : List CallEdge) (callee : Text) :
    (sitesOf edges callee).map (·.1) = List.range (sitesOf edges callee).length := by
  refine List.ext_getElem (by simp) fun i _ _ => ?_
  simp [sitesOf]

theorem sitesOf_concat_of_ne {edges : List CallEdge} {e : CallEdge} {callee : Text}
    (h : e.calleeName ≠ callee) : sitesOf (edges ++ [e]) callee = sitesOf edges callee := by
  rw [sitesOf, sitesOf, List.filter_append, List.filter_cons_of_neg (by simpa using h),
    List.filter_nil, List.append_nil]

theorem sitesOf_concat_self (edges : List CallEdge) (e : CallEdge) :
    sitesOf (edges ++ [e]) e.calleeName =
      sitesOf edges e.calleeName ++ [((sitesOf edges e.calleeName).length, e.location)] := by
  rw [sitesOf, sitesOf, List.filter_append, List.filter_cons_of_pos (by simp), List.filter_nil,
    List.mapIdx_concat, List.length_mapIdx]

/-- A bundle gathers the edges of a caller to a callee. -/
structure Gathers (place : Text → Handle) (caller : Text) (edges : List CallEdge) (b : Bundle)
    (callee : Text) : Prop where
  ends : b.ends = (place caller, place callee)
  sites : b.sites = sitesOf edges callee

variable {place : Text → Handle} {caller : Text} {edges : List CallEdge}

/-- The next key of a bundle is the number of its calls. -/
theorem Gathers.keys {b : Bundle} {callee : Text} (h : Gathers place caller edges b callee) :
    freshKey b.keys = (sitesOf edges callee).length := by
  rw [Bundle.keys, h.sites, keys_sitesOf, freshKey_range]

/-- The edge of another callee leaves a bundle as it is. -/
theorem Gathers.concat {b : Bundle} {callee : Text} (h : Gathers place caller edges b callee)
    {e : CallEdge} (hne : e.calleeName ≠ callee) : Gathers place caller (edges ++ [e]) b callee :=
  ⟨h.ends, h.sites.trans (sitesOf_concat_of_ne hne).symm⟩

/-- **One edge.** A further edge joins the bundle of its callee, or starts one after all others if
the callee has not been called before. -/
theorem gathers_addSite {bundles : List Bundle} {callees : List Text} (e : CallEdge)
    (h : List.Forall₂ (Gathers place caller edges) bundles callees) (hnodup : callees.Nodup)
    (hinj : ∀ callee ∈ callees, place callee = place e.calleeName → callee = e.calleeName)
    (hnew : e.calleeName ∉ callees → sitesOf edges e.calleeName = []) :
    List.Forall₂ (Gathers place caller (edges ++ [e]))
      (addSite (place caller) (place e.calleeName) e.location bundles).2
      (if e.calleeName ∈ callees then callees else callees ++ [e.calleeName]) := by
  induction h with
  | nil =>
    rw [if_neg List.not_mem_nil]
    refine .cons ⟨rfl, ?_⟩ .nil
    rw [sitesOf_concat_self, hnew List.not_mem_nil]
    rfl
  | @cons b callee bundles callees hb hbundles ih =>
    obtain ⟨hcallee, hnodup⟩ := List.nodup_cons.1 hnodup
    by_cases hsame : callee = e.calleeName
    · subst hsame
      have hjoins : b.joins (place caller) (place e.calleeName) = true := Bundle.joins_iff.2 hb.ends
      rw [addSite, if_pos hjoins, if_pos List.mem_cons_self]
      refine .cons ⟨hb.ends, ?_⟩ ?_
      · show b.sites ++ [(freshKey b.keys, e.location)] = _
        rw [sitesOf_concat_self, hb.keys, hb.sites]
      · -- the other callees are different ones
        obtain ⟨hlength, hothers⟩ := List.forall₂_iff_zip.1 hbundles
        refine List.forall₂_iff_zip.2 ⟨hlength, fun {b' c} hpair => (hothers hpair).concat ?_⟩
        rintro rfl
        exact hcallee (List.of_mem_zip hpair).2
    · have hjoins : ¬ b.joins (place caller) (place e.calleeName) = true := by
        intro hjoins
        have hends := hb.ends.symm.trans (Bundle.joins_iff.1 hjoins)
        exact hsame (hinj callee List.mem_cons_self (Prod.mk.inj hends).2)
      have hmem : e.calleeName ∈ callee :: callees ↔ e.calleeName ∈ callees := by
        rw [List.mem_cons, or_iff_right (Ne.symm hsame)]
      have hrest :=
        ih hnodup (fun c hc => hinj c (List.mem_cons_of_mem _ hc)) (fun hn => hnew (mt hmem.1 hn))
      rw [addSite, if_neg hjoins]
      simp only [hmem]
      split at hrest
      · next hknown =>
        rw [if_pos hknown]
        exact .cons (hb.concat (Ne.symm hsame)) hrest
      · next hunknown =>
        rw [if_neg hunknown]
        exact .cons (hb.concat (Ne.symm hsame)) hrest

/-- **All edges of a caller.** -/
theorem gathers_bundleUp
    (hinj : ∀ e ∈ edges, ∀ e' ∈ edges, place e.calleeName = place e'.calleeName →
      e.calleeName = e'.calleeName) :
    List.Forall₂ (Gathers place caller edges) (bundleUp place (edges.map fun e => (caller, e)))
      (edges.map CallEdge.calleeName).eraseDups := by
  induction edges using List.reverseRecOn with
  | nil => exact .nil
  | append_singleton edges e ih =>
    have hold {e' : CallEdge} (he' : e' ∈ edges) : e' ∈ edges ++ [e] := List.mem_append_left _ he'
    have hlast : e ∈ edges ++ [e] := List.mem_append_right _ (List.mem_singleton_self e)
    have hknown := ih fun e' he' e'' he'' => hinj e' (hold he') e'' (hold he'')
    have hstep := gathers_addSite e hknown (nodup_eraseDups _) ?_ ?_
    · simp only [List.mem_eraseDups] at hstep
      rw [List.map_append, List.map_append, List.map_singleton, List.map_singleton, bundleUp_concat,
        eraseDups_concat]
      exact hstep
    · intro callee hcallee hplace
      obtain ⟨e', he', rfl⟩ := List.mem_map.1 (List.mem_eraseDups.1 hcallee)
      exact hinj e' (hold he') e hlast hplace
    · intro hnew
      have hnone : (edges.filter fun e' => e'.calleeName == e.calleeName) = [] := by
        refine List.filter_eq_nil_iff.2 fun e' he' hsame => hnew (List.mem_eraseDups.2 ?_)
        rw [← beq_iff_eq.1 hsame]
        exact List.mem_map_of_mem he'
      rw [sitesOf, hnone]
      rfl

/-- The calls of a bundle are those of the record with this callee. -/
theorem Gathers.calls {b : Bundle} {callee : Text} (h : Gathers place caller edges b callee) :
    b.calls = (edges.filter fun e => e.calleeName == callee).mapIdx fun i e =>
      { source := place caller, target := place callee, key := i, location := e.location } := by
  obtain ⟨hsource, htarget⟩ := Prod.mk.inj h.ends
  rw [Bundle.calls, h.sites, hsource, htarget]
  refine List.ext_getElem (by simp [sitesOf]) fun i _ _ => ?_
  simp [sitesOf]

/-- The calls of all bundles are those of the record, grouped by callee. -/
theorem calls_bundleUp
    (hinj : ∀ e ∈ edges, ∀ e' ∈ edges, place e.calleeName = place e'.calleeName →
      e.calleeName = e'.calleeName) :
    (bundleUp place (edges.map fun e => (caller, e))).flatMap Bundle.calls =
      callsBy place caller edges := by
  have h : List.Forall₂ (Gathers place caller edges) _ _ := gathers_bundleUp hinj
  rw [callsBy]
  generalize bundleUp place (edges.map fun e => (caller, e)) = bundles at h ⊢
  generalize (edges.map CallEdge.calleeName).eraseDups = callees at h ⊢
  induction h with
  | nil => rfl
  | cons hb _ ih => rw [List.flatMap_cons, List.flatMap_cons, hb.calls, ih]

/-! ## Graphs of call records -/

/-- All edges that the records have for a caller. -/
def edgesOf (records : List (Text × List CallEdge)) (caller : Text) : List CallEdge :=
  (records.filter fun record => record.1 == caller).flatMap fun record => record.2

theorem filter_edgesIn_eq (records : List (Text × List CallEdge)) (caller : Text) :
    ((edgesIn records).filter fun e => e.1 == caller) = (edgesOf records caller).map fun e =>
      (caller, e) := by
  rw [filter_edgesIn, edgesIn, edgesOf, List.map_flatMap]
  refine List.flatMap_congr fun record hrecord => ?_
  rw [beq_iff_eq.1 (List.mem_filter.1 hrecord).2]

/-- A name has a handle if and only if it was seen. -/
theorem Numbered.handleOf_eq {seen : List Text} {g : CallGraph} (h : Numbered seen g)
    (name : Text) : g.handleOf name = if name ∈ seen then some (handleIn seen name) else none := by
  rw [handleOf, h.index, lookup_mapIdx fun i => (i : Handle)]
  simp only [List.mem_eraseDups]
  by_cases hname : name ∈ seen
  · have hnode : g.hasNode (handleIn seen name) = true := hasNode_iff.2 (h.handleIn_mem hname)
    rw [if_pos hname, if_pos hname]
    exact if_pos hnode
  · rw [if_neg hname, if_neg hname]

/-- Every edge is one call. -/
theorem length_calls_bundleUp (place : Text → Handle) (edges : List (Text × CallEdge)) :
    ((bundleUp place edges).flatMap Bundle.calls).length = edges.length := by
  induction edges using List.reverseRecOn with
  | nil => rfl
  | append_singleton edges e ih =>
    rw [bundleUp_concat, (calls_addSite _ _ _ _).length_eq, List.length_cons, ih,
      List.length_append, List.length_singleton]

theorem nodup_roots (records : List (Text × List CallEdge)) : (ofRecords records).roots.Nodup := by
  have hedge (caller : Handle) (r : Rooted) (hr : r.roots.Nodup) (e : CallEdge) :
      (Rooted.addEdge caller r e).roots.Nodup := by
    show (if e.isLangItem && !r.roots.contains caller then r.roots ++ [caller] else r.roots).Nodup
    split
    · next hnew =>
      refine nodup_concat_of_not_mem hr fun hmem => ?_
      simp [hmem] at hnew
    · exact hr
  have hrecord (r : Rooted) (hr : r.roots.Nodup) (record : Text × List CallEdge) :
      (r.addRecord record).roots.Nodup :=
    List.foldlRecOn (b := { r with graph := (r.graph.intern record.1).2 }) record.2 _
      (motive := fun r => r.roots.Nodup) hr fun r hr e _ => hedge _ r hr e
  exact List.foldlRecOn (b := {}) records Rooted.addRecord (motive := fun r => r.roots.Nodup)
    List.nodup_nil
    fun r hr record _ => hrecord r hr record

/-- **The graph of call records is exact.** The nodes are the callers and the callees of the
records, each of them once, numbered from zero on in the order of their first occurrence. The calls
out of a node are those that the edges of all its records make, one for each edge, listed by callee
in the order of the first calls and within a callee in the order of the edges. There are as many
calls as there are edges. The roots are the callers that have an edge of a lang item in some
record. -/
theorem ofRecords_is_exact (records : List (Text × List CallEdge)) :
    let g := (ofRecords records).graph
    let names := (namesIn records).eraseDups
    let number : Text → Handle := fun name => names.idxOf name
    (g.nodes = names.mapIdx (fun i name => ((i : Handle), some name)) ∧ names.Nodup ∧
      ∀ name, name ∈ names ↔
        ∃ record ∈ records, name = record.1 ∨ ∃ e ∈ record.2, name = e.calleeName) ∧
    (∀ name ∈ names, g.handleOf name = some (number name) ∧
      g.callsFrom (number name) = callsBy number name (edgesOf records name) ∧
      ((g.callsFrom (number name)).map fun c => (g.nameOf c.target, c.location)).Perm
        ((edgesOf records name).map fun e => (.ok e.calleeName, e.location))) ∧
    g.callCount = (records.map fun record => record.2.length).sum ∧
    (ofRecords records).roots.Nodup ∧
    ∀ h, h ∈ (ofRecords records).roots ↔
      ∃ record ∈ records, (∃ e ∈ record.2, e.isLangItem = true) ∧ g.handleOf record.1 = some h := by
  intro g names number
  have hbuilt := built_ofRecords records
  have hcaller {record : Text × List CallEdge} (hrecord : record ∈ records) :
      record.1 ∈ namesIn records :=
    List.mem_flatMap.2 ⟨record, hrecord, List.mem_cons_self⟩
  have hcallee {name : Text} {e : CallEdge} (he : e ∈ edgesOf records name) :
      e.calleeName ∈ namesIn records := by
    obtain ⟨record, hrecord, he⟩ := List.mem_flatMap.1 he
    exact List.mem_flatMap.2 ⟨record, (List.mem_filter.1 hrecord).1,
      List.mem_cons_of_mem _ (List.mem_map_of_mem he)⟩
  -- the calls of a node come from its own edges, and names are told apart by their numbers
  have hcalls (name : Text) :
      g.callsFrom (number name) = callsBy number name (edgesOf records name) := by
    show g.callsFrom (handleIn (namesIn records) name) = _
    rw [hbuilt.callsFrom_eq, filter_edgesIn_eq]
    exact calls_bundleUp fun e he e' _ hsame => handleIn_injective (hcallee he) hsame
  refine ⟨⟨hbuilt.nodes, nodup_eraseDups _, fun name => ?_⟩,
    fun name hname => ⟨?_, hcalls name, ?_⟩, ?_,
    nodup_roots records, fun h => ?_⟩
  · rw [List.mem_eraseDups, namesIn, List.mem_flatMap]
    simp only [List.mem_cons, List.mem_map, eq_comm]
  · rw [hbuilt.handleOf_eq, if_pos (List.mem_eraseDups.1 hname)]
    rfl
  · have hperm := (perm_callsBy number name (edgesOf records name)).map fun p => (g.nameOf p.1, p.2)
    rw [List.map_map, List.map_map] at hperm
    rw [hcalls name]
    refine hperm.trans (.of_eq (List.map_congr_left fun e he => ?_))
    exact Prod.ext (hbuilt.nameOf_eq_ok.2 ⟨hcallee he, rfl⟩) rfl
  · show (g.bundles.flatMap Bundle.calls).length = _
    rw [hbuilt.bundles, length_calls_bundleUp, edgesIn, List.length_flatMap]
    simp only [List.length_map]
  · rw [hbuilt.roots]
    constructor
    · rintro ⟨e, he, hlang, rfl⟩
      obtain ⟨record, hrecord, he⟩ := List.mem_flatMap.1 he
      obtain ⟨edge, hedge, rfl⟩ := List.mem_map.1 he
      exact ⟨record, hrecord, ⟨edge, hedge, hlang⟩,
        by rw [hbuilt.handleOf_eq, if_pos (hcaller hrecord)]⟩
    · rintro ⟨record, hrecord, ⟨edge, hedge, hlang⟩, hhandle⟩
      rw [hbuilt.handleOf_eq, if_pos (hcaller hrecord)] at hhandle
      exact ⟨(record.1, edge), List.mem_flatMap.2 ⟨record, hrecord, List.mem_map_of_mem hedge⟩,
        hlang,
        Option.some.inj hhandle⟩

end CallAudit.CallGraph
