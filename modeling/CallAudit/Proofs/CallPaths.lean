import CallAudit.Graph.Basic
import Mathlib.Tactic

/-!
# Paths of calls

Calls of a graph are told apart by their identities. A path is a list of calls, each of which starts
where the one before ends; it may use a call more than once.
-/

namespace CallAudit

/-! ## Identities -/

/-- The calls of a bundle have different identities. -/
theorem Bundle.nodup_calls_id (b : Bundle) : (b.calls.map Call.id).Nodup := by
  have hmap : b.calls.map Call.id =
      (b.sites.map (·.1)).map fun key => { source := b.source, target := b.target, key } := by
    simp only [Bundle.calls, List.map_map]
    rfl
  rw [hmap]
  refine b.distinctKeys.map fun k k' e => ?_
  exact congrArg CallId.key e

namespace CallGraph

variable {g : CallGraph}

/-- No two calls of a graph have one identity. -/
theorem nodup_calls_id (g : CallGraph) : (g.calls.map Call.id).Nodup := by
  rw [calls, List.map_flatMap]
  refine List.nodup_flatMap.2 ⟨fun b _ => b.nodup_calls_id, ?_⟩
  refine (List.pairwise_map.1 g.distinctEnds).imp ?_
  intro b b' hends id hb hb'
  obtain ⟨c, hc, rfl⟩ := List.mem_map.1 hb
  obtain ⟨c', hc', e⟩ := List.mem_map.1 hb'
  apply hends
  have hsource : c'.source = c.source := congrArg CallId.source e
  have htarget : c'.target = c.target := congrArg CallId.target e
  rw [Bundle.ends, Bundle.ends, ← source_of_mem_calls hc, ← target_of_mem_calls hc,
    ← source_of_mem_calls hc', ← target_of_mem_calls hc', hsource, htarget]

/-- A call is known by its identity. -/
theorem eq_of_id_eq {c d : Call} (hc : c ∈ g.calls) (hd : d ∈ g.calls) (h : c.id = d.id) : c = d :=
  List.inj_on_of_nodup_map g.nodup_calls_id hc hd h

/-! ## Paths -/

/-- Calls that can be made one after the other, starting at the given node. -/
def IsPath (g : CallGraph) : Handle → List Call → Prop
  | _, [] => True
  | h, c :: cs => c ∈ g.callsFrom h ∧ g.IsPath c.target cs

/-- Where calls that start at the given node end. -/
def pathEnd : Handle → List Call → Handle
  | h, [] => h
  | _, c :: cs => pathEnd c.target cs

instance decidableIsPath (g : CallGraph) :
    (h : Handle) → (cs : List Call) → Decidable (g.IsPath h cs)
  | _, [] => .isTrue trivial
  | h, c :: cs =>
    have := decidableIsPath g c.target cs
    inferInstanceAs (Decidable (c ∈ g.callsFrom h ∧ g.IsPath c.target cs))

/-- A path ends where its last call leads. -/
theorem pathEnd_concat (h : Handle) (cs : List Call) (c : Call) :
    pathEnd h (cs ++ [c]) = c.target := by
  induction cs generalizing h with
  | nil => rfl
  | cons d cs ih => exact ih d.target

/-- A path may be cut anywhere. -/
theorem isPath_append {h : Handle} {cs ds : List Call} :
    g.IsPath h (cs ++ ds) ↔ g.IsPath h cs ∧ g.IsPath (pathEnd h cs) ds := by
  induction cs generalizing h with
  | nil => simp [IsPath, pathEnd]
  | cons c cs ih => simp [IsPath, pathEnd, ih, and_assoc]

theorem isPath_concat {h : Handle} {cs : List Call} {c : Call} :
    g.IsPath h (cs ++ [c]) ↔ g.IsPath h cs ∧ c ∈ g.callsFrom (pathEnd h cs) := by
  rw [isPath_append]
  simp [IsPath]

/-- A path consists of calls of the graph. -/
theorem IsPath.mem_calls {h : Handle} {cs : List Call} (hp : g.IsPath h cs) :
    ∀ c ∈ cs, c ∈ g.calls := by
  induction cs generalizing h with
  | nil => intro c hc; simp at hc
  | cons d cs ih =>
    intro c hc
    rcases List.mem_cons.1 hc with rfl | hc
    · exact (mem_callsFrom.1 hp.1).1
    · exact ih hp.2 c hc

end CallGraph

end CallAudit
