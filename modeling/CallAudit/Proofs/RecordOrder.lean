import CallAudit.Audit.Analysis
import CallAudit.Proofs.Isomorphism

/-!
# The order of call records

The handles of a graph of call records depend on the order of the records, and so does the order of
its nodes. The calls out of a node depend on its own record only: the bundles of a caller are those
that its own edges make (`filter_bundleUp`), whatever the handles are (`bundleUp_rename`). So if no
two records have one caller, another order of the records gives an isomorphic graph
(`isomorphic_ofRecords`), and the analysis shows the same.
-/

namespace CallAudit

/-- A bundle with other handles for its ends. -/
def Bundle.rename (φ : Handle → Handle) (b : Bundle) : Bundle :=
  { b with source := φ b.source, target := φ b.target }

theorem Bundle.calls_rename (φ : Handle → Handle) (b : Bundle) :
    (b.rename φ).calls = b.calls.map (Call.rename φ) := by
  rw [Bundle.calls, Bundle.calls, List.map_map]
  rfl

namespace CallGraph

variable {φ : Handle → Handle} {seen seen' : List Text} {edges edges' : List (Text × CallEdge)}
  {records records' : List (Text × List CallEdge)}

/-! ## Bundles -/

/-- A call is added in the same way under other handles, as long as they tell the ends apart. -/
theorem addSite_rename {source target : Handle} {bundles : List Bundle}
    (h : ∀ b ∈ bundles, (b.rename φ).ends = (φ source, φ target) → b.ends = (source, target))
    (location : SourceLocation) :
    (addSite (φ source) (φ target) location (bundles.map (Bundle.rename φ))).2 =
      (addSite source target location bundles).2.map (Bundle.rename φ) := by
  induction bundles with
  | nil => rfl
  | cons b rest ih =>
    have hjoins : (b.rename φ).joins (φ source) (φ target) = b.joins source target := by
      rw [Bool.eq_iff_iff, Bundle.joins_iff, Bundle.joins_iff]
      refine ⟨h b List.mem_cons_self, fun hends => ?_⟩
      obtain ⟨hsource, htarget⟩ := Prod.mk.inj hends
      show (φ b.source, φ b.target) = _
      rw [hsource, htarget]
    simp only [addSite, List.map_cons, hjoins]
    split
    · rfl
    · rw [List.map_cons, ih fun b hb => h b (List.mem_cons_of_mem _ hb)]

/-- A call of another caller leaves the bundles of a caller alone. -/
theorem filter_addSite_of_ne {source h : Handle} (hne : source ≠ h) (target : Handle)
    (location : SourceLocation) (bundles : List Bundle) :
    ((addSite source target location bundles).2.filter fun b => b.source == h) =
      bundles.filter fun b => b.source == h := by
  induction bundles with
  | nil => exact List.filter_cons_of_neg (by simpa [Bundle.single] using hne)
  | cons b rest ih =>
    rw [addSite]
    split
    · next hjoins =>
      have hsource : b.source = source := congrArg Prod.fst (Bundle.joins_iff.1 hjoins)
      have hskip {b' : Bundle} (hb' : b'.source = source) :
          ((b' :: rest).filter fun b => b.source == h) = rest.filter fun b => b.source == h :=
        List.filter_cons_of_neg (by simpa [hb'] using hne)
      rw [hskip hsource]
      exact hskip hsource
    · dsimp only
      rw [List.filter_cons, List.filter_cons, ih]

/-- A call of a caller is added to the bundles of this caller. -/
theorem filter_addSite (source target : Handle) (location : SourceLocation)
    (bundles : List Bundle) :
    ((addSite source target location bundles).2.filter fun b => b.source == source) =
      (addSite source target location (bundles.filter fun b => b.source == source)).2 := by
  induction bundles with
  | nil => exact List.filter_cons_of_pos (by simp [Bundle.single])
  | cons b rest ih =>
    by_cases hown : b.source = source
    · have hkeep (b' : Bundle) (hb' : b'.source = source) (l : List Bundle) :
          ((b' :: l).filter fun b => b.source == source) = b' :: l.filter fun b =>
            b.source == source :=
        List.filter_cons_of_pos (beq_iff_eq.2 hb')
      rw [hkeep b hown, addSite, addSite]
      split
      · exact hkeep (b.add location) hown rest
      · exact (hkeep b hown _).trans (congrArg _ ih)
    · have hskip (l : List Bundle) :
          ((b :: l).filter fun b => b.source == source) = l.filter fun b => b.source == source :=
        List.filter_cons_of_neg (by simpa using hown)
      have hjoins : ¬ b.joins source target = true :=
        fun hjoins => hown (congrArg Prod.fst (Bundle.joins_iff.1 hjoins))
      rw [hskip, addSite, if_neg hjoins]
      exact (hskip _).trans ih

/-- Bundles join callers and callees of the edges. -/
theorem ends_of_mem_bundleUp {place : Text → Handle} {b : Bundle} (hb : b ∈ bundleUp place edges) :
    ∃ e ∈ edges, b.ends = (place e.1, place e.2.calleeName) := by
  induction edges using List.reverseRecOn generalizing b with
  | nil => exact absurd hb List.not_mem_nil
  | append_singleton edges e ih =>
    -- an edge brings at most its own pair of ends
    have hends := List.mem_map_of_mem (f := Bundle.ends) hb
    rw [bundleUp_concat, map_ends_addSite] at hends
    have hold (hmem : b.ends ∈ (bundleUp place edges).map Bundle.ends) :
        ∃ e' ∈ edges ++ [e], b.ends = (place e'.1, place e'.2.calleeName) := by
      obtain ⟨b', hb', hsame⟩ := List.mem_map.1 hmem
      obtain ⟨e', he', hends'⟩ := ih hb'
      exact ⟨e', List.mem_append_left _ he', hsame.symm.trans hends'⟩
    split at hends
    · exact hold hends
    · rcases List.mem_append.1 hends with hends | hends
      · exact hold hends
      · exact ⟨e, List.mem_append_right _ (List.mem_singleton_self e), List.mem_singleton.1 hends⟩

/-- The bundles of a caller are those that its own edges make. -/
theorem filter_bundleUp (place : Text → Handle) (edges : List (Text × CallEdge)) (h : Handle) :
    ((bundleUp place edges).filter fun b => b.source == h) =
      bundleUp place (edges.filter fun e => place e.1 == h) := by
  induction edges using List.reverseRecOn with
  | nil => rfl
  | append_singleton edges e ih =>
    rw [bundleUp_concat, List.filter_append]
    by_cases hown : place e.1 = h
    · subst hown
      rw [filter_addSite, ih, List.filter_cons_of_pos (by simp), List.filter_nil, bundleUp_concat]
    · rw [filter_addSite_of_ne hown, ih, List.filter_cons_of_neg (by simpa using hown),
        List.filter_nil, List.append_nil]

/-- Edges make the same bundles under other handles, as long as they tell the names apart. -/
theorem bundleUp_rename {place : Text → Handle}
    (hknown : ∀ e ∈ edges, e.1 ∈ seen ∧ e.2.calleeName ∈ seen)
    (hinj : ∀ m ∈ seen, ∀ n ∈ seen, φ (place m) = φ (place n) → place m = place n) :
    bundleUp (fun name => φ (place name)) edges = (bundleUp place edges).map (Bundle.rename φ) := by
  induction edges using List.reverseRecOn with
  | nil => rfl
  | append_singleton edges e ih =>
    have hold {e' : Text × CallEdge} (he' : e' ∈ edges) := hknown e' (List.mem_append_left _ he')
    obtain ⟨hcaller, hcallee⟩ := hknown e (List.mem_append_right _ (List.mem_singleton_self e))
    rw [bundleUp_concat, bundleUp_concat, ih fun e' he' => hold he']
    refine addSite_rename ?_ e.2.location
    intro b hb hends
    obtain ⟨e', he', hends'⟩ := ends_of_mem_bundleUp hb
    obtain ⟨hsource, htarget⟩ := Prod.mk.inj hends'
    have hends : (φ b.source, φ b.target) = (φ (place e.1), φ (place e.2.calleeName)) := hends
    rw [hsource, htarget, Prod.mk.injEq] at hends
    rw [hends', hinj _ (hold he').1 _ hcaller hends.1, hinj _ (hold he').2 _ hcallee hends.2]

/-! ## Isomorphic graphs of call records -/

/-- The handle that the name of a handle has when names occur in another order. -/
def renumber (seen seen' : List Text) (h : Handle) : Handle :=
  handleIn seen' (seen.eraseDups.getD h.toNat [])

theorem renumber_handleIn {name : Text} (hname : name ∈ seen) :
    renumber seen seen' (handleIn seen name) = handleIn seen' name := by
  have hget : seen.eraseDups.getD (handleIn seen name).toNat [] = name := by
    show seen.eraseDups.getD (seen.eraseDups.idxOf name) [] = name
    rw [List.getD_eq_getElem?_getD, List.getElem?_idxOf (List.mem_eraseDups.2 hname),
      Option.getD_some]
  rw [renumber, hget]

theorem renumber_injective (hseen : ∀ name, name ∈ seen' ↔ name ∈ seen) {m n : Text} (hm : m ∈ seen)
    (hn : n ∈ seen)
    (e : renumber seen seen' (handleIn seen m) = renumber seen seen' (handleIn seen n)) :
    m = n := by
  rw [renumber_handleIn hm, renumber_handleIn hn] at e
  exact handleIn_injective ((hseen m).2 hm) e

theorem bundleUp_renumber (hseen : ∀ name, name ∈ seen' ↔ name ∈ seen)
    (hknown : ∀ e ∈ edges, e.1 ∈ seen ∧ e.2.calleeName ∈ seen) :
    bundleUp (handleIn seen') edges =
      (bundleUp (handleIn seen) edges).map (Bundle.rename (renumber seen seen')) := by
  rw [← bundleUp_rename hknown fun m hm n hn e => congrArg _ (renumber_injective hseen hm hn e)]
  refine bundleUp_congr fun e he => ?_
  obtain ⟨hcaller, hcallee⟩ := hknown e he
  exact ⟨(renumber_handleIn hcaller).symm, (renumber_handleIn hcallee).symm⟩

namespace Built

variable {r r' : Rooted}

/-- The calls of a caller come from its own edges. -/
theorem callsFrom_eq (h : Built seen edges r) {name : Text} :
    r.graph.callsFrom (handleIn seen name) =
      (bundleUp (handleIn seen) (edges.filter fun e => e.1 == name)).flatMap Bundle.calls := by
  rw [callsFrom, h.bundles, filter_bundleUp]
  congr 2
  refine List.filter_congr fun e he => ?_
  rw [Bool.eq_iff_iff, beq_iff_eq, beq_iff_eq]
  exact ⟨handleIn_injective (h.known e he).1, congrArg (handleIn seen)⟩

/-- Graphs that are built from the same names, and from the same edges for each caller, are
isomorphic. -/
theorem isomorphic (h : Built seen edges r) (h' : Built seen' edges' r')
    (hseen : ∀ name, name ∈ seen' ↔ name ∈ seen)
    (hedges : ∀ name, (edges'.filter fun e => e.1 == name) = edges.filter fun e => e.1 == name) :
    Isomorphic (renumber seen seen') r.graph r'.graph := by
  refine ⟨⟨?_, ?_, ?_⟩, ?_⟩
  · intro k hk k' hk' e
    obtain ⟨m, hm, rfl⟩ := h.mem_handles.1 hk
    obtain ⟨n, hn, rfl⟩ := h.mem_handles.1 hk'
    rw [renumber_injective hseen hm hn e]
  · intro k hk
    obtain ⟨name, hname, rfl⟩ := h.mem_handles.1 hk
    rw [renumber_handleIn hname, h.nameOf_eq_ok.2 ⟨hname, rfl⟩]
    exact h'.nameOf_eq_ok.2 ⟨(hseen name).2 hname, rfl⟩
  · intro k hk
    obtain ⟨name, hname, rfl⟩ := h.mem_handles.1 hk
    have hknown : ∀ e ∈ edges.filter fun e => e.1 == name, e.1 ∈ seen ∧ e.2.calleeName ∈ seen :=
      fun e he => h.known e (List.mem_filter.1 he).1
    rw [renumber_handleIn hname, h'.callsFrom_eq, h.callsFrom_eq, hedges,
      bundleUp_renumber hseen hknown, List.flatMap_map, List.map_flatMap]
    simp only [Bundle.calls_rename]
  · intro k
    rw [h'.mem_handles]
    constructor
    · rintro ⟨name, hname, rfl⟩
      have hname' := (hseen name).1 hname
      exact ⟨handleIn seen name, h.handleIn_mem hname', renumber_handleIn hname'⟩
    · rintro ⟨j, hj, rfl⟩
      obtain ⟨name, hname, rfl⟩ := h.mem_handles.1 hj
      exact ⟨name, (hseen name).2 hname, (renumber_handleIn hname).symm⟩

/-- The same callers are synthesized roots. -/
theorem mem_roots_iff (h : Built seen edges r) (h' : Built seen' edges' r')
    (hedges : ∀ e, e ∈ edges' ↔ e ∈ edges) (k : Handle) :
    k ∈ r'.roots ↔ ∃ j ∈ r.roots, renumber seen seen' j = k := by
  rw [h'.roots]
  constructor
  · rintro ⟨e, he, hlang, rfl⟩
    have he' := (hedges e).1 he
    exact ⟨handleIn seen e.1, (h.roots _).2 ⟨e, he', hlang, rfl⟩,
      renumber_handleIn (h.known e he').1⟩
  · rintro ⟨j, hj, rfl⟩
    obtain ⟨e, he, hlang, rfl⟩ := (h.roots j).1 hj
    exact ⟨e, (hedges e).2 he, hlang, (renumber_handleIn (h.known e he).1).symm⟩

theorem roots_live (h : Built seen edges r) : ∀ k ∈ r.roots, k ∈ r.graph.handles := by
  intro k hk
  obtain ⟨e, he, -, rfl⟩ := (h.roots k).1 hk
  exact h.handleIn_mem (h.known e he).1

end Built

/-- The edges of a caller come from its own records. -/
theorem filter_edgesIn (records : List (Text × List CallEdge)) (name : Text) :
    ((edgesIn records).filter fun e => e.1 == name) =
      edgesIn (records.filter fun record => record.1 == name) := by
  refine (flatMap_filter ?_ records).symm
  intro record e he
  obtain ⟨edge, -, rfl⟩ := List.mem_map.1 he
  rfl

/-- Records with one caller keep their order if no two records have one caller. -/
theorem filter_records_of_perm (hdistinct : (records.map (·.1)).Nodup)
    (hperm : records.Perm records') (name : Text) :
    (records'.filter fun record => record.1 == name) = records.filter fun record =>
      record.1 == name := by
  have hcallers : ((records.filter fun record => record.1 == name).map (·.1)) =
      List.replicate (records.filter fun record => record.1 == name).length name := by
    refine List.eq_replicate_iff.2 ⟨List.length_map _, fun caller hcaller => ?_⟩
    obtain ⟨record, hrecord, rfl⟩ := List.mem_map.1 hcaller
    exact beq_iff_eq.1 (List.mem_filter.1 hrecord).2
  -- the caller occurs once for each of these records, and no caller occurs twice
  have hsingle : (records.filter fun record => record.1 == name).length ≤ 1 := by
    have hnodup : ((records.filter fun record => record.1 == name).map (·.1)).Nodup :=
      (List.Sublist.map _ List.filter_sublist).nodup hdistinct
    rw [hcallers] at hnodup
    exact List.nodup_replicate.1 hnodup
  have hfilter := hperm.symm.filter fun record => record.1 == name
  rcases Nat.le_one_iff_eq_zero_or_eq_one.1 hsingle with hnone | hone
  · rw [List.length_eq_zero_iff.1 hnone] at hfilter ⊢
    exact hfilter.eq_nil
  · obtain ⟨record, hrecord⟩ := List.length_eq_one_iff.1 hone
    rw [hrecord] at hfilter ⊢
    exact List.perm_singleton.1 hfilter

/-- If no two records have one caller, another order of the records gives an isomorphic graph with
the same roots. -/
theorem isomorphic_ofRecords (hdistinct : (records.map (·.1)).Nodup)
    (hperm : records.Perm records') :
    Isomorphic (renumber (namesIn records) (namesIn records')) (ofRecords records).graph
        (ofRecords records').graph ∧
      ∀ k, k ∈ (ofRecords records').roots ↔
        ∃ j ∈ (ofRecords records).roots, renumber (namesIn records) (namesIn records') j = k := by
  have hbuilt := built_ofRecords records
  have hbuilt' := built_ofRecords records'
  refine ⟨hbuilt.isomorphic hbuilt' (fun _ => (hperm.flatMap_right _).mem_iff.symm) fun name => ?_,
    hbuilt.mem_roots_iff hbuilt' fun _ => (hperm.flatMap_right _).mem_iff.symm⟩
  rw [filter_edgesIn, filter_edgesIn, filter_records_of_perm hdistinct hperm]

/-- Call records can be pruned, and every node that is left has a name of its own. -/
theorem named_surviving (records : List (Text × List CallEdge)) :
    ∃ pruned graph, surviving records = .ok (pruned, graph) ∧ graph.Named ∧ graph.Distinct := by
  have hbuilt := built_ofRecords records
  obtain ⟨pruned, graph, hprune⟩ := prune_named hbuilt.named hbuilt.roots_live
  obtain ⟨_, read, -, -, -, rfl⟩ := prune_ok hprune
  exact ⟨pruned, _, hprune, hbuilt.named.withoutMarked _ read, hbuilt.distinct.withoutMarked _ read⟩

end CallGraph

namespace Analysis

open CallGraph

/-! ## Analyses -/

theorem ofRecords_eq_ok {records : List (Text × List CallEdge)} {markings : MarkingSource}
    {scope : VisitScope} {pruned : PruneResult} {graph : CallGraph} {entries : List Handle}
    {report : AuditReport} (hsurviving : surviving records = .ok (pruned, graph))
    (hentries : graph.entryPoints markings = .ok entries)
    (hreport : graph.audit markings scope entries = .ok report) :
    ofRecords records markings scope none = .ok { pruned, graph, entries, report } := by
  simp only [ofRecords, hsurviving, hentries, hreport]

/-- The stages of an analysis. -/
theorem exists_stages (records : List (Text × List CallEdge)) (markings : MarkingSource)
    (scope : VisitScope) :
    ∃ pruned graph entries report, surviving records = .ok (pruned, graph) ∧ graph.Named ∧
      graph.Distinct ∧ graph.entryPoints markings = .ok entries ∧
      graph.audit markings scope entries = .ok report := by
  obtain ⟨pruned, graph, hsurviving, hnamed, hdistinct⟩ := named_surviving records
  obtain ⟨entries, hentries⟩ := hnamed.entryPoints markings
  obtain ⟨report, hreport⟩ :=
    Traversal.run_named (t := { scope }) hnamed markings rfl (mem_handles_of_entryPoints hentries)
  exact ⟨pruned, graph, entries, report, hsurviving, hnamed, hdistinct, hentries, hreport⟩

/-- Two analyses of the same records in different orders go through isomorphic graphs to one
report. -/
theorem ofRecords_perm {records records' : List (Text × List CallEdge)}
    (hdistinct : (records.map (·.1)).Nodup) (hperm : records.Perm records')
    (markings : MarkingSource) (scope : VisitScope) :
    ∃ φ pruned graph graph' entries report, graph.Named ∧ Isomorphic φ graph graph' ∧
      (∀ k ∈ entries, k ∈ graph.handles) ∧
      ofRecords records markings scope none = .ok { pruned, graph, entries, report } ∧
      ofRecords records' markings scope none =
        .ok { pruned, graph := graph', entries := entries.map φ, report } := by
  obtain ⟨pruned, graph, entries, report, hsurviving, hnamed, hunique, hentries, hreport⟩ :=
    exists_stages records markings scope
  obtain ⟨hiso, hroots⟩ := isomorphic_ofRecords hdistinct hperm
  obtain ⟨graph', hsurviving', hiso'⟩ :=
    hiso.prune (built_ofRecords records).roots_live hroots hsurviving
  -- the entry points correspond, and the walks from them do
  have hlive := mem_handles_of_entryPoints hentries
  have hreport' := (hiso'.audit_eq markings scope hlive).trans hreport
  exact ⟨_, pruned, graph, graph', entries, report, hnamed, hiso', hlive,
    ofRecords_eq_ok hsurviving hentries hreport,
    ofRecords_eq_ok hsurviving' (hiso'.entryPoints hnamed hunique hentries) hreport'⟩

/-- **The order of the records does not matter.** If no two call records have one caller, then an
analysis of the records in any order, with entry points chosen by the markings, succeeds; it prunes
the same, chooses entry points with the same names in the same order, and ends with the same
report. -/
theorem record_order_is_immaterial (records records' : List (Text × List CallEdge))
    (hdistinct : (records.map (·.1)).Nodup) (hperm : records.Perm records')
    (markings : MarkingSource) (scope : VisitScope) :
    ∃ a a', ofRecords records markings scope none = .ok a ∧
      ofRecords records' markings scope none = .ok a' ∧ a'.pruned = a.pruned ∧
      (∃ names, a.entries.mapM a.graph.nameOf = .ok names ∧
        a'.entries.mapM a'.graph.nameOf = .ok names) ∧
      a'.report = a.report := by
  obtain ⟨φ, pruned, graph, graph', entries, report, hnamed, hiso, hlive, ha, ha'⟩ :=
    ofRecords_perm hdistinct hperm markings scope
  obtain ⟨names, hnames⟩ := mapM_ok fun k hk => hnamed k (hlive k hk)
  refine ⟨_, _, ha, ha', rfl, ⟨names, hnames, ?_⟩, rfl⟩
  rw [List.mapM_map, ← hnames]
  exact mapM_congr fun k hk => hiso.nameOf k (hlive k hk)

/-- The entry points `m` and `n` call `o`, and `m` also calls `r`, which the compiler has
synthesized; `o` and `r` call `u`. -/
def twoEntries : List (Text × List CallEdge) :=
  [(['m'], [{ callee := ['r'], location := { file := [], line := 1 } },
      { callee := ['o'], location := { file := [], line := 2 } }]),
    (['r', '<', '>'], [{ callee := ['u'], isLangItem := true,
                         location := { file := [], line := 3 } }]),
    (['o', '<', '>'], [{ callee := ['u'], location := { file := [], line := 4 } }]),
    (['n'], [{ callee := ['o'], location := { file := [], line := 5 } }])]

/-- `u` requires an audit. -/
def twoEntriesMarkings : MarkingSource := fun name =>
  ([(['m'], { isEntryPoint := true }), (['n'], { isEntryPoint := true }),
    (['u'], { requiresAudit := some ['c'] })] : List (Text × Marking)).lookup name

/-- Read backwards, the records give other handles to the entry points and the same report. -/
theorem record_order_is_immaterial_reverse :
    (twoEntries.map (·.1)).Nodup ∧
      ∃ a a', ofRecords twoEntries twoEntriesMarkings .entryPoint none = .ok a ∧
        ofRecords twoEntries.reverse twoEntriesMarkings .entryPoint none = .ok a' ∧
        a.entries = [0, 4] ∧ a'.entries = [4, 0] ∧ a'.pruned = a.pruned ∧ a'.report = a.report ∧
        a.report.unaudited.length = 2 := by
  have hdistinct : (twoEntries.map (·.1)).Nodup := by decide
  obtain ⟨a, a', ha, ha', hpruned, -, hreport⟩ :=
    record_order_is_immaterial twoEntries twoEntries.reverse
    hdistinct (List.reverse_perm _).symm twoEntriesMarkings .entryPoint
  have hvalue : (ofRecords twoEntries twoEntriesMarkings .entryPoint none).map
      (fun a => (a.entries, a.report.unaudited.length)) = .ok ([0, 4], 2) := by cbv
  have hvalue' : (ofRecords twoEntries.reverse twoEntriesMarkings .entryPoint none).map
      (fun a => a.entries) = .ok [4, 0] := by cbv
  rw [ha] at hvalue
  rw [ha'] at hvalue'
  obtain ⟨hentries, hcount⟩ := Prod.mk.inj (Except.ok.inj hvalue)
  exact ⟨hdistinct, a, a', ha, ha', hentries, Except.ok.inj hvalue', hpruned, hreport, hcount⟩

end Analysis

end CallAudit
