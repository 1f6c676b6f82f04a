import CallAudit.Graph.Prune
import CallAudit.Proofs.Naming
import CallAudit.Proofs.Results
import Mathlib.Computability.Primrec.List
import Mathlib.Tactic

/-!
# Pruning removes the least closed set

A node is engulfed by the roots if it is one, or if it is called and all its callers are engulfed.
This is the least set that contains the roots and every called node whose callers it contains.
Pruning looks at a node again only when a call into it was marked in the last round; `Marked` is
what a round keeps, and it shows that nothing is missed: a node all of whose callers are marked has
been marked, or is a callee of the worklist.

* `Marked.round` and `marked_cascade`: what one round keeps, and what is marked in the end;
* `calls_removeCalls`, `calls_dropNodes`: what remains when calls and nodes are removed;
* `prune_removes_least`: what a pruning removes and what it reports.
-/

namespace CallAudit

/-- Choosing lists by what their members share is choosing members. -/
theorem flatMap_filter {α β : Type} {f : α → List β} {p : α → Bool} {q : β → Bool}
    (h : ∀ a, ∀ b ∈ f a, q b = p a) (l : List α) :
    (l.filter p).flatMap f = (l.flatMap f).filter q := by
  induction l with
  | nil => rfl
  | cons a rest ih =>
    rw [List.flatMap_cons, List.filter_append, ← ih]
    cases ha : p a with
    | false =>
      have hnone : (f a).filter q = [] :=
        List.filter_eq_nil_iff.2 fun b hb => by simp [h a b hb, ha]
      rw [List.filter_cons_of_neg (by simp [ha]), hnone, List.nil_append]
    | true =>
      have hall : (f a).filter q = f a := List.filter_eq_self.2 fun b hb => by rw [h a b hb, ha]
      rw [List.filter_cons_of_pos ha, hall, List.flatMap_cons]

namespace CallGraph

variable {g : CallGraph} {roots : List Handle}

/-! ## Engulfed nodes -/

/-- A set of nodes that contains the roots and every called node whose callers it contains. -/
def Engulfs (g : CallGraph) (roots : List Handle) (s : Set Handle) : Prop :=
  (∀ h ∈ roots, h ∈ s) ∧
    ∀ h, g.callsInto h ≠ [] → (∀ c ∈ g.callsInto h, c.source ∈ s) → h ∈ s

/-- The nodes that are roots or are called by such nodes only. -/
inductive Engulfed (g : CallGraph) (roots : List Handle) : Handle → Prop
  | root {h : Handle} (mem : h ∈ roots) : Engulfed g roots h
  | callee {h : Handle} (called : g.callsInto h ≠ [])
      (callers : ∀ c ∈ g.callsInto h, Engulfed g roots c.source) : Engulfed g roots h

theorem isLeast_engulfed (g : CallGraph) (roots : List Handle) :
    IsLeast { s | g.Engulfs roots s } { h | g.Engulfed roots h } := by
  constructor
  · exact ⟨fun h hh => .root hh, fun h called callers => .callee called callers⟩
  · intro s hs h hh
    induction hh with
    | root mem => exact hs.1 _ mem
    | callee called _ ih => exact hs.2 _ called ih

/-- Engulfed nodes belong to the graph if the roots do. -/
theorem Engulfed.live {h : Handle} (hh : g.Engulfed roots h) (hroots : ∀ r ∈ roots, r ∈ g.handles) :
    h ∈ g.handles := by
  cases hh with
  | root mem => exact hroots h mem
  | callee called _ =>
    obtain ⟨c, hc⟩ := List.exists_mem_of_ne_nil _ called
    obtain ⟨hcalls, rfl⟩ := mem_callsInto.1 hc
    exact (live_of_mem_calls hcalls).2

/-! ## Rounds of marking -/

theorem mem_markCallsFrom {m : Marks} {worklist : List Handle} {c : Call} (hc : c ∈ g.calls) :
    c.id ∈ (g.markCallsFrom m worklist).calls ↔ c.id ∈ m.calls ∨ c.source ∈ worklist := by
  have hfrom : c.id ∈ (worklist.flatMap g.callsFrom).map Call.id ↔ c.source ∈ worklist := by
    constructor
    · intro hmem
      obtain ⟨d, hd, hid⟩ := List.mem_map.1 hmem
      obtain ⟨h, hh, hd⟩ := List.mem_flatMap.1 hd
      have hsource : d.source = c.source := congrArg CallId.source hid
      rwa [← hsource, (mem_callsFrom.1 hd).2]
    · intro hmem
      refine List.mem_map.2 ⟨c, List.mem_flatMap.2 ⟨c.source, hmem, ?_⟩, rfl⟩
      exact mem_callsFrom.2 ⟨hc, rfl⟩
  rw [markCallsFrom, List.mem_append, hfrom]

/-- What is marked before a round with the given worklist: engulfed nodes, among them the roots and
the worklist, and the calls out of them except those out of the worklist. A node all of whose
incoming calls are marked is marked itself. -/
structure Marked (g : CallGraph) (roots : List Handle) (m : Marks) (worklist : List Handle) :
    Prop where
  engulfed : ∀ h ∈ m.nodes, g.Engulfed roots h
  roots : ∀ h ∈ roots, h ∈ m.nodes
  pending : ∀ h ∈ worklist, h ∈ m.nodes
  nodup : m.nodes.Nodup
  calls : ∀ c ∈ g.calls, c.id ∈ m.calls ↔ c.source ∈ m.nodes ∧ c.source ∉ worklist
  closed : ∀ h, g.callsInto h ≠ [] → (∀ c ∈ g.callsInto h, c.id ∈ m.calls) → h ∈ m.nodes

namespace Marked

variable {m : Marks} {worklist : List Handle}

/-- After the calls out of the worklist are marked, the calls out of all marked nodes are. -/
theorem mem_calls (hm : Marked g roots m worklist) {c : Call} (hc : c ∈ g.calls) :
    c.id ∈ (g.markCallsFrom m worklist).calls ↔ c.source ∈ m.nodes := by
  rw [mem_markCallsFrom hc, hm.calls c hc]
  constructor
  · rintro (⟨hmem, -⟩ | hmem)
    · exact hmem
    · exact hm.pending _ hmem
  · intro hmem
    by_cases hw : c.source ∈ worklist
    · exact .inr hw
    · exact .inl ⟨hmem, hw⟩

/-- A node that a round adds is engulfed. -/
theorem engulfed_overrun (hm : Marked g roots m worklist) {h : Handle}
    (hh : h ∈ g.overrun (g.markCallsFrom m worklist) worklist) : g.Engulfed roots h := by
  obtain ⟨hcallee, -, hall⟩ := mem_overrun.1 hh
  obtain ⟨c, hc, -, rfl⟩ := mem_calleesOf.1 hcallee
  refine .callee (List.ne_nil_of_mem (mem_callsInto.2 ⟨hc, rfl⟩)) fun d hd => ?_
  have hd' := (mem_callsInto.1 hd).1
  exact hm.engulfed _ ((hm.mem_calls hd').1 (hall d hd))

/-- A round adds every node whose incoming calls are all marked by then. -/
theorem mem_or_overrun (hm : Marked g roots m worklist) {h : Handle} (called : g.callsInto h ≠ [])
    (hall : ∀ c ∈ g.callsInto h, c.id ∈ (g.markCallsFrom m worklist).calls) :
    h ∈ m.nodes ∨ h ∈ g.overrun (g.markCallsFrom m worklist) worklist := by
  by_cases hh : h ∈ m.nodes
  · exact .inl hh
  · right
    -- some call into the node was marked in this round only, so the node is a callee of the
    -- worklist
    have hnew : ∃ c ∈ g.callsInto h, c.id ∉ m.calls := by
      by_contra hnone
      push Not at hnone
      exact hh (hm.closed h called hnone)
    obtain ⟨c, hc, hnot⟩ := hnew
    obtain ⟨hcalls, htarget⟩ := mem_callsInto.1 hc
    have hsource : c.source ∈ worklist :=
      ((mem_markCallsFrom hcalls).1 (hall c hc)).resolve_left hnot
    exact mem_overrun.2 ⟨mem_calleesOf.2 ⟨c, hcalls, hsource, htarget⟩, hh, hall⟩

/-- One round of marking. -/
theorem round (hm : Marked g roots m worklist) :
    Marked g roots
      { g.markCallsFrom m worklist with
        nodes := m.nodes ++ g.overrun (g.markCallsFrom m worklist) worklist }
      (g.overrun (g.markCallsFrom m worklist) worklist) where
  engulfed h hh := (List.mem_append.1 hh).elim (hm.engulfed h) hm.engulfed_overrun
  roots h hh := List.mem_append_left _ (hm.roots h hh)
  pending h hh := List.mem_append_right _ hh
  nodup := by
    refine List.nodup_append.2 ⟨hm.nodup, ?_, ?_⟩
    · refine List.Nodup.filter _ ?_
      exact (List.mergeSort_perm _ _).nodup_iff.2 (nodup_eraseDups _)
    · rintro h hold k hnew rfl
      exact (mem_overrun.1 hnew).2.1 hold
  calls c hc := by
    rw [List.mem_append]
    refine (hm.mem_calls hc).trans ⟨fun hold => ⟨.inl hold, ?_⟩, fun ⟨hmem, hnot⟩ => ?_⟩
    · exact fun hnew => (mem_overrun.1 hnew).2.1 hold
    · exact hmem.resolve_right hnot
  closed h called hall := List.mem_append.2 (hm.mem_or_overrun called hall)

end Marked

/-- The rounds come to an end with nothing pending. -/
theorem marked_cascade {m : Marks} {worklist : List Handle} (hm : Marked g roots m worklist) :
    Marked g roots (g.cascade m worklist) [] := by
  fun_induction cascade g m worklist with
  | case1 m => exact hm
  | case2 m k rest m' new hnone =>
    have hround := hm.round
    rw [show g.overrun (g.markCallsFrom m (k :: rest)) (k :: rest) = [] from hnone,
      List.append_nil] at hround
    exact hround
  | case3 m k rest m' new _ ih => exact ih hm.round

/-- What is marked when a pruning starts. -/
theorem marked_roots (g : CallGraph) (roots : List Handle) :
    Marked g roots { calls := [], nodes := roots.eraseDups } (inOrder roots.eraseDups) where
  engulfed h hh := .root (List.mem_eraseDups.1 hh)
  roots h hh := List.mem_eraseDups.2 hh
  pending h hh := List.mem_mergeSort.1 hh
  nodup := nodup_eraseDups roots
  calls c _ := by simp [inOrder]
  closed h called hall := by
    obtain ⟨c, hc⟩ := List.exists_mem_of_ne_nil _ called
    exact absurd (hall c hc) List.not_mem_nil

/-- The calls and nodes that a pruning marks. -/
def marksOf (g : CallGraph) (roots : List Handle) : Marks :=
  g.cascade { calls := [], nodes := roots.eraseDups } (inOrder roots.eraseDups)

theorem marked_marksOf (g : CallGraph) (roots : List Handle) :
    Marked g roots (g.marksOf roots) [] :=
  marked_cascade (marked_roots g roots)

/-- Exactly the engulfed nodes are marked. -/
theorem mem_nodes_marksOf {h : Handle} : h ∈ (g.marksOf roots).nodes ↔ g.Engulfed roots h := by
  have hm := marked_marksOf g roots
  refine ⟨hm.engulfed h, fun hh => ?_⟩
  induction hh with
  | root mem => exact hm.roots _ mem
  | callee called _ ih =>
    refine hm.closed _ called fun c hc => ?_
    exact (hm.calls c (mem_callsInto.1 hc).1).2 ⟨ih c hc, List.not_mem_nil⟩

/-- Exactly the calls out of engulfed nodes are marked. -/
theorem mem_calls_marksOf {c : Call} (hc : c ∈ g.calls) :
    c.id ∈ (g.marksOf roots).calls ↔ g.Engulfed roots c.source := by
  rw [(marked_marksOf g roots).calls c hc, mem_nodes_marksOf]
  exact and_iff_left List.not_mem_nil

instance (g : CallGraph) (roots : List Handle) : DecidablePred (g.Engulfed roots) :=
  fun _ => decidable_of_iff _ mem_nodes_marksOf

/-! ## Removing calls and nodes -/

/-- Dropping a call from a bundle leaves the other calls. -/
theorem calls_dropSite (id : CallId) (b : Bundle) :
    (dropSite id b).toList.flatMap Bundle.calls = b.calls.filter fun c => decide (c.id ≠ id) := by
  by_cases hjoins : b.joins id.source id.target = true
  · have hends := Bundle.joins_iff.1 hjoins
    have hkeep : (b.calls.filter fun c => decide (c.id ≠ id)) =
        (b.sites.filter (·.1 != id.key)).map fun site =>
          { source := b.source, target := b.target, key := site.1, location := site.2 } := by
      rw [Bundle.calls, List.filter_map]
      congr 1
      refine List.filter_congr fun site _ => ?_
      have hid : ({ source := b.source, target := b.target, key := site.1 } : CallId) = id ↔
          site.1 = id.key := by
        rw [Bundle.ends, Prod.mk.injEq] at hends
        constructor
        · exact fun e => congrArg CallId.key e
        · intro e
          rw [e, hends.1, hends.2]
      simp only [Function.comp_apply, Call.id, ne_eq, hid, decide_not]
      rfl
    rw [hkeep, dropSite, if_pos hjoins, Bundle.remove?]
    split
    · next hnone => rw [hnone]; rfl
    · simp [Bundle.calls]
  · have hall : (b.calls.filter fun c => decide (c.id ≠ id)) = b.calls := by
      refine List.filter_eq_self.2 fun c hc => decide_eq_true fun e => hjoins ?_
      rw [Bundle.joins_iff, Bundle.ends, ← source_of_mem_calls hc, ← target_of_mem_calls hc, ← e]
      rfl
    rw [hall, dropSite, if_neg hjoins]
    simp

theorem calls_removeCall (g : CallGraph) (id : CallId) :
    (g.removeCall id).calls = g.calls.filter fun c => decide (c.id ≠ id) := by
  show (g.bundles.filterMap (dropSite id)).flatMap Bundle.calls = _
  rw [calls, List.filter_flatMap]
  induction g.bundles with
  | nil => rfl
  | cons b rest ih =>
    rw [List.flatMap_cons, ← calls_dropSite, ← ih]
    cases hb : dropSite id b with
    | none => simp [hb]
    | some b' => simp [hb]

/-- Removing calls leaves the others in their order. -/
theorem calls_removeCalls (g : CallGraph) (ids : List CallId) :
    (g.removeCalls ids).calls = g.calls.filter fun c => decide (c.id ∉ ids) := by
  induction ids generalizing g with
  | nil => simp [removeCalls]
  | cons id ids ih =>
    show ((g.removeCall id).removeCalls ids).calls = _
    rw [ih, calls_removeCall, List.filter_filter]
    refine List.filter_congr fun c _ => ?_
    simp [Bool.and_comm]

/-- Removing calls changes neither nodes nor names. -/
theorem removeCalls_rest (g : CallGraph) (ids : List CallId) :
    (g.removeCalls ids).nodes = g.nodes ∧ (g.removeCalls ids).index = g.index := by
  induction ids generalizing g with
  | nil => exact ⟨rfl, rfl⟩
  | cons id ids ih => exact ih (g.removeCall id)

theorem callsFrom_eq_filter (g : CallGraph) (h : Handle) :
    g.callsFrom h = g.calls.filter fun c => c.source == h :=
  flatMap_filter (fun b c hc => by rw [source_of_mem_calls hc]) g.bundles

theorem callsInto_eq_filter (g : CallGraph) (h : Handle) :
    g.callsInto h = g.calls.filter fun c => c.target == h :=
  flatMap_filter (fun b c hc => by rw [target_of_mem_calls hc]) g.bundles

/-- If a graph has some of the calls of another, so it is for the calls out of each node. -/
theorem callsFrom_of_calls_eq_filter {g' : CallGraph} {p : Call → Bool}
    (h : g'.calls = g.calls.filter p) (k : Handle) : g'.callsFrom k = (g.callsFrom k).filter p := by
  rw [callsFrom_eq_filter, callsFrom_eq_filter, h, List.filter_filter, List.filter_filter]
  exact List.filter_congr fun c _ => Bool.and_comm _ _

theorem callsInto_of_calls_eq_filter {g' : CallGraph} {p : Call → Bool}
    (h : g'.calls = g.calls.filter p) (k : Handle) : g'.callsInto k = (g.callsInto k).filter p := by
  rw [callsInto_eq_filter, callsInto_eq_filter, h, List.filter_filter, List.filter_filter]
  exact List.filter_congr fun c _ => Bool.and_comm _ _

/-- Removing nodes leaves the calls between the others in their order. -/
theorem calls_dropNodes (g : CallGraph) (hs : List Handle) :
    (g.dropNodes hs).calls = g.calls.filter fun c => decide (c.source ∉ hs ∧ c.target ∉ hs) := by
  refine flatMap_filter (fun b c hc => ?_) g.bundles
  rw [source_of_mem_calls hc, target_of_mem_calls hc]
  simp

/-- Names are taken out of the index when all of them can be read. -/
theorem forgetAll_ok {hs : List Handle} {names : List Text} (h : hs.mapM g.nameOf = .ok names) :
    g.forgetAll hs = ({ g with index := g.index.filter fun e => !names.contains e.1 }, .ok ()) := by
  induction hs generalizing g names with
  | nil =>
    obtain rfl := Except.ok.inj h
    simp [forgetAll]
  | cons k hs ih =>
    rw [List.mapM_cons] at h
    obtain ⟨name, hname, h⟩ := bind_eq_ok.1 h
    obtain ⟨rest, hrest, h⟩ := bind_eq_ok.1 h
    obtain rfl := Except.ok.inj h
    -- names are read off the nodes, which a change of the index leaves alone
    have hrest' : hs.mapM (g.forget name).nameOf = .ok rest := hrest
    rw [forgetAll, hname]
    dsimp only
    rw [ih hrest']
    simp only [forget, List.filter_filter, List.contains_cons, Bool.not_or]
    congr 3
    funext e
    exact Bool.and_comm _ _

/-- Nodes are removed when all of their names can be read. -/
theorem removeNodes_ok {hs : List Handle} {names : List Text} (h : hs.mapM g.nameOf = .ok names) :
    g.removeNodes hs =
      (({ g with index := g.index.filter fun e => !names.contains e.1 } : CallGraph).dropNodes hs,
        .ok ()) := by
  have hlive : hs.filter g.hasNode = hs := by
    refine List.filter_eq_self.2 fun k hk => ?_
    obtain ⟨name, hname⟩ := ok_of_mapM h k hk
    exact List.contains_iff_mem.2 (mem_handles_of_nameOf hname)
  rw [removeNodes, hlive, forgetAll_ok h]

/-- Taking names out of the index changes neither nodes nor calls. -/
theorem forgetAll_rest (g : CallGraph) (hs : List Handle) :
    (g.forgetAll hs).1.nodes = g.nodes ∧ (g.forgetAll hs).1.bundles = g.bundles := by
  induction hs generalizing g with
  | nil => exact ⟨rfl, rfl⟩
  | cons k hs ih =>
    rw [forgetAll]
    cases g.nameOf k with
    | error fault => exact ⟨rfl, rfl⟩
    | ok name => exact ih (g.forget name)

/-- Removing nodes leaves the other nodes, and the calls between them, as they were. -/
theorem removeNodes_rest {hs : List Handle} {rest : CallGraph}
    (h : g.removeNodes hs = (rest, .ok ())) :
    rest.nodes = g.nodes.filter (fun node => decide (node.1 ∉ hs)) ∧
      rest.calls = g.calls.filter fun c => decide (c.source ∉ hs ∧ c.target ∉ hs) := by
  obtain ⟨hnodes, hbundles⟩ := forgetAll_rest g (hs.filter g.hasNode)
  have hcalls : (g.forgetAll (hs.filter g.hasNode)).1.calls = g.calls := by
    rw [calls, hbundles, calls]
  have hrest : rest = (g.forgetAll (hs.filter g.hasNode)).1.dropNodes (hs.filter g.hasNode) := by
    unfold removeNodes at h
    dsimp only at h
    split at h
    · next g' hg' => rw [hg', (Prod.mk.inj h).1]
    · simp at h
  -- a node of the graph is doomed exactly if its handle is given
  have hmem {k : Handle} (hk : k ∈ g.handles) : k ∈ hs.filter g.hasNode ↔ k ∈ hs := by
    rw [List.mem_filter, hasNode, List.contains_iff_mem]
    exact and_iff_left hk
  constructor
  · rw [hrest]
    show (g.forgetAll _).1.nodes.filter _ = _
    rw [hnodes]
    refine List.filter_congr fun node hnode => ?_
    have hk : node.1 ∈ g.handles := List.mem_map_of_mem hnode
    simp only [List.contains_eq_mem, hmem hk, decide_not]
  · rw [hrest, calls_dropNodes, hcalls]
    refine List.filter_congr fun c hc => ?_
    refine decide_eq_decide.2 ?_
    rw [hmem (live_of_mem_calls hc).1, hmem (live_of_mem_calls hc).2]

/-! ## Names in order -/

/-- The names of the nodes that satisfy a condition, in ascending order. -/
def ListsNames (g : CallGraph) (p : Handle → Prop) [DecidablePred p] (names : List Text) : Prop :=
  names.Pairwise (fun a b => Text.le a b = true) ∧
    ∃ read, (g.handles.filter fun h => decide (p h)).mapM g.nameOf = .ok read ∧ names.Perm read

theorem sortedNames_eq_ok {hs : List Handle} {names : List Text} :
    g.sortedNames hs = .ok names ↔
      ∃ read, hs.mapM g.nameOf = .ok read ∧ names = read.mergeSort Text.le := by
  unfold sortedNames
  cases hs.mapM g.nameOf with
  | error fault => simp [Except.map]
  | ok read => simp [Except.map, eq_comm]

/-- Sorted names of handles are those of the nodes with these handles. -/
theorem listsNames_of_sortedNames {p : Handle → Prop} [DecidablePred p] {hs : List Handle}
    {names : List Text} (hnodup : hs.Nodup) (hmem : ∀ h, h ∈ hs ↔ p h)
    (h : g.sortedNames hs = .ok names) : g.ListsNames p names := by
  obtain ⟨read, hread, rfl⟩ := sortedNames_eq_ok.1 h
  have hperm : hs.Perm (g.handles.filter fun h => decide (p h)) := by
    refine (List.perm_ext_iff_of_nodup hnodup (g.distinctNodes.filter _)).2 fun k => ?_
    rw [List.mem_filter, decide_eq_true_iff, ← hmem]
    refine ⟨fun hk => ⟨?_, hk⟩, fun hk => hk.2⟩
    obtain ⟨name, hname⟩ := ok_of_mapM hread k hk
    exact mem_handles_of_nameOf hname
  obtain ⟨read', hread', hsame⟩ := mapM_perm hread hperm
  refine ⟨List.pairwise_mergeSort Text.le_trans Text.le_total read, read', hread', ?_⟩
  exact (List.mergeSort_perm read Text.le).trans hsame

/-! ## What a pruning does -/

/-- The graph without the marked calls and nodes, whose names are taken out of the index. -/
def withoutMarked (g : CallGraph) (roots : List Handle) (names : List Text) : CallGraph :=
  let rest := g.removeCalls (g.marksOf roots).calls
  ({ rest with index := rest.index.filter fun e => !names.contains e.1 } : CallGraph).dropNodes
    (g.marksOf roots).nodes

/-- A pruning succeeds when the names of the roots and of the marked nodes can be read. -/
theorem prune_eq {rootNames read : List Text}
    (hroots : g.sortedNames roots.eraseDups = .ok rootNames)
    (hread : (g.marksOf roots).nodes.mapM g.nameOf = .ok read) :
    g.prune roots = .ok
      ({ roots := rootNames, removedNodes := read.mergeSort Text.le
         removedCalls := g.callCount - (g.withoutMarked roots read).callCount },
        g.withoutMarked roots read) := by
  have hnames : g.sortedNames (g.marksOf roots).nodes = .ok (read.mergeSort Text.le) :=
    sortedNames_eq_ok.2 ⟨read, hread, rfl⟩
  have hread' :
      (g.marksOf roots).nodes.mapM (g.removeCalls (g.marksOf roots).calls).nameOf = .ok read := by
    rw [← hread]
    congr 1
    funext h
    simp only [nameOf, (removeCalls_rest g _).1]
  have hremoved := removeNodes_ok hread'
  unfold marksOf at hnames hremoved
  unfold prune
  rw [hroots]
  dsimp only
  rw [hnames]
  dsimp only
  rw [hremoved]
  rfl

/-- A pruning that succeeds has read the names of the roots and of the marked nodes. -/
theorem prune_ok {result : PruneResult} {pruned : CallGraph}
    (h : g.prune roots = .ok (result, pruned)) :
    ∃ rootNames read, g.sortedNames roots.eraseDups = .ok rootNames ∧
      (g.marksOf roots).nodes.mapM g.nameOf = .ok read ∧
      result = { roots := rootNames, removedNodes := read.mergeSort Text.le
                 removedCalls := g.callCount - (g.withoutMarked roots read).callCount } ∧
      pruned = g.withoutMarked roots read := by
  cases hroots : g.sortedNames roots.eraseDups with
  | error fault => simp [prune, hroots] at h
  | ok rootNames =>
    cases hnames : g.sortedNames (g.marksOf roots).nodes with
    | error fault =>
      unfold marksOf at hnames
      simp [prune, hroots, hnames] at h
    | ok names =>
      obtain ⟨read, hread, -⟩ := sortedNames_eq_ok.1 hnames
      rw [prune_eq hroots hread] at h
      obtain ⟨hresult, hpruned⟩ := Prod.mk.inj (Except.ok.inj h)
      exact ⟨rootNames, read, rfl, hread, hresult.symm, hpruned.symm⟩

/-- A call is spared if neither its caller nor its callee is engulfed. -/
def Spared (g : CallGraph) (roots : List Handle) (c : Call) : Prop :=
  ¬ g.Engulfed roots c.source ∧ ¬ g.Engulfed roots c.target

instance (g : CallGraph) (roots : List Handle) : DecidablePred (g.Spared roots) :=
  fun c => inferInstanceAs (Decidable (¬ g.Engulfed roots c.source ∧ ¬ g.Engulfed roots c.target))

section

variable (g : CallGraph) (roots : List Handle) (names : List Text)

theorem nodes_withoutMarked : (g.withoutMarked roots names).nodes =
    g.nodes.filter fun node => decide (¬ g.Engulfed roots node.1) := by
  show ((g.removeCalls _).nodes.filter _) = _
  rw [(removeCalls_rest g _).1]
  refine List.filter_congr fun node _ => ?_
  simp [List.contains_eq_mem, mem_nodes_marksOf]

theorem calls_withoutMarked : (g.withoutMarked roots names).calls =
    g.calls.filter fun c => decide (g.Spared roots c) := by
  rw [withoutMarked, calls_dropNodes]
  show ((g.removeCalls _).calls.filter _) = _
  rw [calls_removeCalls, List.filter_filter]
  refine List.filter_congr fun c hc => ?_
  -- a call whose caller is not engulfed is not marked
  rw [Bool.eq_iff_iff, Bool.and_eq_true, decide_eq_true_iff, decide_eq_true_iff, decide_eq_true_iff,
    mem_calls_marksOf hc, mem_nodes_marksOf, mem_nodes_marksOf, Spared]
  tauto

theorem callsFrom_withoutMarked (h : Handle) : (g.withoutMarked roots names).callsFrom h =
    (g.callsFrom h).filter fun c => decide (g.Spared roots c) :=
  callsFrom_of_calls_eq_filter (calls_withoutMarked g roots names) h

theorem callsInto_withoutMarked (h : Handle) : (g.withoutMarked roots names).callsInto h =
    (g.callsInto h).filter fun c => decide (g.Spared roots c) :=
  callsInto_of_calls_eq_filter (calls_withoutMarked g roots names) h

theorem nameOf_withoutMarked {h : Handle} (hh : ¬ g.Engulfed roots h) :
    (g.withoutMarked roots names).nameOf h = g.nameOf h := by
  have hlookup := lookup_filter (fun k => decide (¬ g.Engulfed roots k)) h g.nodes
  rw [if_pos (decide_eq_true hh)] at hlookup
  rw [nameOf, nameOf, nodes_withoutMarked, hlookup]

/-- Names are found as before, except those taken out of the index and those of removed nodes. -/
theorem handleOf_withoutMarked (name : Text) : (g.withoutMarked roots names).handleOf name =
    if name ∈ names then none
    else (g.handleOf name).filter fun h => decide (¬ g.Engulfed roots h) := by
  have hindex : (g.withoutMarked roots names).index.lookup name =
      if name ∈ names then none else g.index.lookup name := by
    show ((g.removeCalls _).index.filter _).lookup name = _
    rw [(removeCalls_rest g _).2, lookup_filter fun k => !names.contains k]
    by_cases hname : name ∈ names
    · simp [hname]
    · simp [hname]
  have hnode (h : Handle) : (g.withoutMarked roots names).hasNode h =
      (g.hasNode h && decide (¬ g.Engulfed roots h)) := by
    rw [hasNode, hasNode, handles, handles, nodes_withoutMarked, Bool.eq_iff_iff]
    simp [and_comm]
  rw [handleOf, hindex]
  by_cases hname : name ∈ names
  · simp [hname]
  · rw [if_neg hname, if_neg hname, handleOf]
    cases g.index.lookup name with
    | none => rfl
    | some h =>
      dsimp only
      rw [hnode]
      cases g.hasNode h <;> by_cases hh : g.Engulfed roots h <;> simp [hh, Option.filter]

/-- The calls that are missing are those with an engulfed end. -/
theorem callCount_withoutMarked : g.callCount - (g.withoutMarked roots names).callCount =
    (g.calls.filter fun c => decide (g.Engulfed roots c.source ∨
      g.Engulfed roots c.target)).length := by
  have hsplit := List.length_eq_length_filter_add (l := g.calls) fun c => decide (g.Spared roots c)
  have hrest : (g.calls.filter fun c => !decide (g.Spared roots c)) =
      g.calls.filter fun c => decide (g.Engulfed roots c.source ∨ g.Engulfed roots c.target) := by
    refine List.filter_congr fun c _ => ?_
    rw [← decide_not]
    refine decide_eq_decide.2 ?_
    rw [Spared]
    tauto
  rw [callCount, callCount, calls_withoutMarked, ← hrest]
  omega

end

/-- A node is left by a pruning if it was there and is not engulfed. -/
theorem mem_handles_withoutMarked {names : List Text} {h : Handle} :
    h ∈ (g.withoutMarked roots names).handles ↔ h ∈ g.handles ∧ ¬ g.Engulfed roots h := by
  rw [handles, nodes_withoutMarked, handles]
  constructor
  · intro hh
    obtain ⟨node, hnode, rfl⟩ := List.mem_map.1 hh
    obtain ⟨hnode, hspared⟩ := List.mem_filter.1 hnode
    exact ⟨List.mem_map_of_mem hnode, of_decide_eq_true hspared⟩
  · rintro ⟨hh, hspared⟩
    obtain ⟨node, hnode, rfl⟩ := List.mem_map.1 hh
    exact List.mem_map_of_mem (List.mem_filter.2 ⟨hnode, decide_eq_true hspared⟩)

/-- The nodes that are left by a pruning have names if all nodes had. -/
theorem Named.withoutMarked (hg : g.Named) (roots : List Handle) (names : List Text) :
    (g.withoutMarked roots names).Named := by
  intro h hh
  obtain ⟨hh, hspared⟩ := mem_handles_withoutMarked.1 hh
  rw [nameOf_withoutMarked g roots names hspared]
  exact hg h hh

/-- The nodes that are left by a pruning have different names if all nodes had. -/
theorem Distinct.withoutMarked (hg : g.Distinct) (roots : List Handle) (names : List Text) :
    (g.withoutMarked roots names).Distinct := by
  intro h k name hh hk
  have hspared {j : Handle} (hj : (g.withoutMarked roots names).nameOf j = .ok name) :
      g.nameOf j = .ok name := by
    rw [← hj, nameOf_withoutMarked]
    exact (mem_handles_withoutMarked.1 (mem_handles_of_nameOf hj)).2
  exact hg h k name (hspared hh) (hspared hk)

/-- In a graph whose nodes have names, a pruning from nodes succeeds. -/
theorem prune_named (hg : g.Named) (hroots : ∀ h ∈ roots, h ∈ g.handles) :
    ∃ result pruned, g.prune roots = .ok (result, pruned) := by
  obtain ⟨rootNames, hrootNames⟩ :=
    mapM_ok fun h hh => hg _ (hroots h (List.mem_eraseDups.1 hh))
  obtain ⟨read, hread⟩ :=
    mapM_ok fun h hh => hg _ ((mem_nodes_marksOf.1 hh).live hroots)
  exact ⟨_, _, prune_eq (sortedNames_eq_ok.2 ⟨rootNames, hrootNames, rfl⟩) hread⟩

/-- **A pruning removes the least closed set.** The engulfed nodes are the least set that contains
the roots and every called node whose callers it contains. A pruning from nodes of a graph whose
nodes have names succeeds. When a pruning succeeds,

* the nodes that are left are those that are not engulfed, with their handles and names, and they
  are found by their names unless a removed node had the same name;
* the calls that are left are those without an engulfed end, as they were and in their order, among
  all calls and among the calls out of and into each node;
* the result lists the names of the engulfed nodes and of the roots in ascending order, and counts
  the calls with an engulfed end. -/
theorem prune_removes_least (g : CallGraph) (roots : List Handle) :
    IsLeast { s | g.Engulfs roots s } { h | g.Engulfed roots h } ∧
    (g.Named → (∀ h ∈ roots, h ∈ g.handles) →
      ∃ result pruned, g.prune roots = .ok (result, pruned)) ∧
    ∀ result pruned, g.prune roots = .ok (result, pruned) →
      (pruned.nodes = g.nodes.filter (fun node => decide (¬ g.Engulfed roots node.1)) ∧
        (∀ h, ¬ g.Engulfed roots h → pruned.nameOf h = g.nameOf h) ∧
        ∀ name, pruned.handleOf name =
          if name ∈ result.removedNodes then none
          else (g.handleOf name).filter fun h => decide (¬ g.Engulfed roots h)) ∧
      (pruned.calls = g.calls.filter (fun c => decide (g.Spared roots c)) ∧
        (∀ h, pruned.callsFrom h = (g.callsFrom h).filter fun c => decide (g.Spared roots c)) ∧
        ∀ h, pruned.callsInto h = (g.callsInto h).filter fun c => decide (g.Spared roots c)) ∧
      g.ListsNames (g.Engulfed roots) result.removedNodes ∧
      g.ListsNames (· ∈ roots) result.roots ∧
      result.removedCalls = (g.calls.filter fun c =>
        decide (g.Engulfed roots c.source ∨ g.Engulfed roots c.target)).length := by
  refine ⟨isLeast_engulfed g roots, prune_named, ?_⟩
  intro result pruned h
  obtain ⟨rootNames, read, hroots, hread, rfl, rfl⟩ := prune_ok h
  refine ⟨⟨nodes_withoutMarked g roots read, ?_, ?_⟩, ⟨calls_withoutMarked g roots read, ?_, ?_⟩,
    ?_, ?_, callCount_withoutMarked g roots read⟩
  · intro h hh
    exact nameOf_withoutMarked g roots read hh
  · intro name
    simp only [List.mem_mergeSort]
    exact handleOf_withoutMarked g roots read name
  · exact callsFrom_withoutMarked g roots read
  · exact callsInto_withoutMarked g roots read
  · exact listsNames_of_sortedNames (marked_marksOf g roots).nodup (fun _ => mem_nodes_marksOf)
      (sortedNames_eq_ok.2 ⟨read, hread, rfl⟩)
  · exact listsNames_of_sortedNames (nodup_eraseDups roots) (fun _ => List.mem_eraseDups) hroots

/-- The function `r` calls `a` twice and `c`, `a` calls `c` and `s`, and `m` calls `s`. -/
def sharedCallee : CallGraph :=
  (ofRecords
    [(['r', '<', '>'], [{ callee := ['a'], location := { file := [], line := 1 } },
        { callee := ['a'], location := { file := [], line := 2 } },
        { callee := ['c'], location := { file := [], line := 3 } }]),
      (['a', '<', '>'], [{ callee := ['c'], location := { file := [], line := 4 } },
        { callee := ['s'], location := { file := [], line := 5 } }]),
      (['m', '<', '>'], [{ callee := ['s'], location := { file := [], line := 6 } }])]).graph

/-- Pruning from `r` removes `a` and `c`, which is met at two depths, and spares `s` and its call
from `m`. -/
theorem prune_removes_least_sharedCallee :
    sharedCallee.Named ∧ ∃ result pruned, sharedCallee.prune [0] = .ok (result, pruned) ∧
      result.removedNodes = ([['a', '<', '>'], ['c', '<', '>'], ['r', '<', '>']] : List Text) ∧
      result.removedCalls = 5 ∧
      pruned.calls = sharedCallee.calls.filter (fun c => decide (sharedCallee.Spared [0] c)) ∧
      pruned.calls.map Call.location = [{ file := [], line := 6 }] := by
  have hnamed : sharedCallee.Named := named_ofRecords _
  obtain ⟨-, hends, hpruned⟩ := prune_removes_least sharedCallee [0]
  obtain ⟨result, pruned, h⟩ := hends hnamed (by decide +kernel)
  have hvalue : (sharedCallee.prune [0]).map (fun p =>
      (p.1.removedNodes, p.1.removedCalls, p.2.calls.map Call.location)) =
        .ok (([['a', '<', '>'], ['c', '<', '>'], ['r', '<', '>']] : List Text), 5,
          [{ file := [], line := 6 }]) := by cbv
  rw [h] at hvalue
  obtain ⟨hnames, hrest⟩ := Prod.mk.inj (Except.ok.inj hvalue)
  obtain ⟨hcount, hleft⟩ := Prod.mk.inj hrest
  exact ⟨hnamed, result, pruned, h, hnames, hcount, (hpruned result pruned h).2.1.1, hleft⟩

end CallGraph

end CallAudit
