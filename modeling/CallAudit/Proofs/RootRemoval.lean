import CallAudit.Proofs.Embedding
import CallAudit.Proofs.Pruning

/-!
# What pruning does for the surviving callers

Pruning removes the roots and, round by round, what only they reach. A surviving node calls none of
the nodes that went with the roots: such a node has all its callers among the removed ones. So for
audits that start at surviving nodes it is as if only the roots had been removed.
-/

namespace CallAudit.CallGraph

variable {g : CallGraph} {roots : List Handle}

/-- A callee of a surviving node is removed only if it is a root. -/
theorem engulfed_callee_iff {c : Call} (hc : c ∈ g.calls) (hsource : ¬ g.Engulfed roots c.source) :
    g.Engulfed roots c.target ↔ c.target ∈ roots := by
  constructor
  · intro htarget
    cases htarget with
    | root mem => exact mem
    | callee _ callers => exact absurd (callers c (mem_callsInto.2 ⟨hc, rfl⟩)) hsource
  · exact .root

/-- The calls of a surviving node are spared unless they lead to a root. -/
theorem spared_iff {c : Call} (hc : c ∈ g.calls) (hsource : ¬ g.Engulfed roots c.source) :
    g.Spared roots c ↔ c.source ∉ roots ∧ c.target ∉ roots := by
  rw [Spared, engulfed_callee_iff hc hsource]
  have hroot : c.source ∉ roots := fun hmem => hsource (.root hmem)
  exact and_congr_left fun _ => ⟨fun _ => hroot, fun _ => hsource⟩

/-- The pruned graph is part of the graph without the roots: the nodes that went with the roots are
still there, but no surviving node calls them. -/
theorem embeds_withoutMarked {names : List Text} {rest : CallGraph}
    (h : g.removeNodes roots = (rest, .ok ())) : Embeds id (g.withoutMarked roots names) rest := by
  obtain ⟨hnodes, hcalls⟩ := removeNodes_rest h
  refine ⟨fun _ _ _ _ e => e, ?_, ?_⟩
  · intro k hk
    have hspared := (mem_handles_withoutMarked.1 hk).2
    have hroot : k ∉ roots := fun hmem => hspared (.root hmem)
    have hlookup := lookup_filter (fun k => decide (k ∉ roots)) k g.nodes
    rw [if_pos (decide_eq_true hroot)] at hlookup
    rw [nameOf_withoutMarked g roots names hspared, id_eq, nameOf, nameOf, hnodes, hlookup]
  · intro k hk
    have hspared := (mem_handles_withoutMarked.1 hk).2
    rw [call_rename_id, List.map_id, id_eq, callsFrom_of_calls_eq_filter hcalls,
      callsFrom_withoutMarked]
    refine List.filter_congr fun c hfrom => ?_
    obtain ⟨hc, rfl⟩ := mem_callsFrom.1 hfrom
    exact decide_eq_decide.2 (spared_iff hc hspared).symm

/-- Roots whose names can be read can be removed. -/
theorem removeNodes_of_prune {result : PruneResult} {pruned : CallGraph}
    (h : g.prune roots = .ok (result, pruned)) : ∃ rest, g.removeNodes roots = (rest, .ok ()) := by
  obtain ⟨rootNames, read, hroots, -, -, -⟩ := prune_ok h
  obtain ⟨sorted, hsorted, -⟩ := sortedNames_eq_ok.1 hroots
  obtain ⟨names, hnames⟩ :=
    mapM_ok fun k hk => ok_of_mapM hsorted k (List.mem_eraseDups.2 hk)
  exact ⟨_, removeNodes_ok hnames⟩

/-- **For surviving callers, pruning is the removal of the roots.** A pruning from nodes of a graph
whose nodes have names succeeds. When a pruning succeeds, the roots can also be removed by
themselves, with their calls and nothing else; and an audit from nodes that survive the pruning has
the same outcome on the pruned graph as on the graph without the roots, namely a report if all nodes
have names. -/
theorem prune_audits_like_root_removal (g : CallGraph) (roots : List Handle) :
    (g.Named → (∀ h ∈ roots, h ∈ g.handles) →
      ∃ result pruned, g.prune roots = .ok (result, pruned)) ∧
    ∀ result pruned, g.prune roots = .ok (result, pruned) →
      ∃ rest, g.removeNodes roots = (rest, .ok ()) ∧
        rest.nodes = g.nodes.filter (fun node => decide (node.1 ∉ roots)) ∧
        rest.calls = g.calls.filter (fun c => decide (c.source ∉ roots ∧ c.target ∉ roots)) ∧
        ∀ markings scope entries, (∀ e ∈ entries, e ∈ pruned.handles) →
          pruned.audit markings scope entries = rest.audit markings scope entries ∧
          (g.Named → ∃ report, pruned.audit markings scope entries = .ok report) := by
  refine ⟨prune_named, ?_⟩
  intro result pruned h
  obtain ⟨rest, hrest⟩ := removeNodes_of_prune h
  obtain ⟨hnodes, hcalls⟩ := removeNodes_rest hrest
  obtain ⟨rootNames, read, -, -, -, rfl⟩ := prune_ok h
  refine ⟨rest, hrest, hnodes, hcalls, ?_⟩
  intro markings scope entries hentries
  constructor
  · have hequal := (embeds_withoutMarked hrest).audit_eq markings scope hentries
    rw [List.map_id] at hequal
    exact hequal.symm
  · intro hg
    exact Traversal.run_named (hg.withoutMarked roots read) markings rfl hentries

/-- `s` requires an audit. -/
def sharedMarkings : MarkingSource := fun name =>
  ([(['s'], { requiresAudit := some ['c'] })] : List (Text × Marking)).lookup name

/-- Pruning `r` takes `a` and `c` along, of which `a` calls `s`; from `m`, the call of `s` is found
all the same, with and without them. -/
theorem prune_audits_like_root_removal_sharedCallee :
    sharedCallee.Named ∧ ∃ result pruned rest report,
      sharedCallee.prune [0] = .ok (result, pruned) ∧
        sharedCallee.removeNodes [0] = (rest, .ok ()) ∧
      pruned.handles = [3, 4] ∧ rest.handles = [1, 2, 3, 4] ∧
      pruned.audit sharedMarkings .run [4] = .ok report ∧
      rest.audit sharedMarkings .run [4] = .ok report ∧ report.unaudited.length = 1 := by
  have hnamed : sharedCallee.Named := named_ofRecords _
  obtain ⟨hends, hpruned⟩ := prune_audits_like_root_removal sharedCallee [0]
  obtain ⟨result, pruned, h⟩ := hends hnamed (by decide +kernel)
  obtain ⟨rest, hrest, hnodes, -, haudits⟩ := hpruned result pruned h
  have hvalue : (sharedCallee.prune [0]).map (fun p =>
      (p.2.handles, (p.2.audit sharedMarkings .run [4]).toOption.map (·.unaudited.length))) =
        .ok ([3, 4], some 1) := by cbv
  rw [h] at hvalue
  obtain ⟨hleft, hcount⟩ := Prod.mk.inj (Except.ok.inj hvalue)
  obtain ⟨hsame, hreport⟩ := haudits sharedMarkings .run [4] (by rw [hleft]; decide)
  obtain ⟨report, hreport⟩ := hreport hnamed
  have hother : rest.handles = [1, 2, 3, 4] := by
    rw [handles, hnodes]
    decide +kernel
  rw [hreport] at hcount
  exact ⟨hnamed, result, pruned, rest, report, h, hrest, hleft, hother, hreport, hsame ▸ hreport,
    Option.some.inj hcount⟩

end CallAudit.CallGraph
