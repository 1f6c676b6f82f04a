import CallAudit.Proofs.CallPaths
import CallAudit.Proofs.Pruning

/-!
# Handles and names

A graph grows and shrinks by interning names, adding calls between nodes, and removing calls and
nodes. Whatever the order of such changes, the index of names and the nodes stay in step: every node
is found by its name, and only nodes are found (`CallGraph.InStep`, `CallGraph.History.inStep`).
Handles are given out in ascending order, so that a handle is never given out again, and calls keep
identities of their own (`CallGraph.changes_keep_in_step`).
-/

namespace CallAudit.CallGraph

variable {g : CallGraph} {issued : List Handle}

/-! ## Changes -/

/-- A change to a graph. -/
inductive Change
  | intern (name : Text)
  | addCall (source target : Handle) (location : SourceLocation)
  | removeCalls (ids : List CallId)
  | removeNodes (hs : List Handle)

/-- Calls are added between nodes only; anything can be removed. -/
def Permits (g : CallGraph) : Change → Prop
  | .addCall source target _ => source ∈ g.handles ∧ target ∈ g.handles
  | .intern _ | .removeCalls _ | .removeNodes _ => True

instance (g : CallGraph) : (c : Change) → Decidable (g.Permits c)
  | .addCall source target _ =>
    inferInstanceAs (Decidable (source ∈ g.handles ∧ target ∈ g.handles))
  | .intern _ | .removeCalls _ | .removeNodes _ => .isTrue trivial

/-- The graph after a change. -/
def after (g : CallGraph) : Change → CallGraph
  | .intern name => (g.intern name).2
  | .addCall source target location => (g.addCall source target location).2
  | .removeCalls ids => g.removeCalls ids
  | .removeNodes hs => (g.removeNodes hs).1

/-- The handle that a change gives out: one that an interning returns and that was no node
before. -/
def issue (g : CallGraph) : Change → List Handle
  | .intern name => if g.hasNode (g.intern name).1 then [] else [(g.intern name).1]
  | .addCall .. | .removeCalls _ | .removeNodes _ => []

/-- What becomes of the empty graph by a sequence of changes, with the handles given out on the
way. -/
inductive History : List Handle → CallGraph → Prop
  | empty : History [] {}
  | change {issued : List Handle} {g : CallGraph} (past : History issued g) (c : Change)
    (permitted : g.Permits c) :
    History (issued ++ g.issue c) (g.after c)

/-- The index leads to the nodes by their names, and to nothing else. Handles have been given out
below the next one, each of them once, and all nodes have been given out. -/
structure InStep (issued : List Handle) (g : CallGraph) : Prop where
  named : g.Named
  index : ∀ name k, g.index.lookup name = some k ↔ g.nameOf k = .ok name
  below : ∀ k ∈ issued, ∃ n, n < g.next ∧ k = (n : Handle)
  once : issued.Nodup
  live : ∀ k ∈ g.handles, k ∈ issued

theorem hasNode_iff {k : Handle} : g.hasNode k = true ↔ k ∈ g.handles := List.contains_iff_mem

/-! ## What a change keeps -/

theorem next_not_mem (h : InStep issued g) : (g.next : Handle) ∉ issued := by
  intro hmem
  obtain ⟨n, hn, heq⟩ := h.below _ hmem
  have hnext : g.next = n := Int.ofNat.inj heq
  omega

theorem InStep.intern (h : InStep issued g) (name : Text) :
    InStep (issued ++ g.issue (.intern name)) (g.intern name).2 := by
  cases hlookup : g.index.lookup name with
  | some k =>
    -- the name has a node already
    have hk : g.hasNode k = true :=
      hasNode_iff.2 (mem_handles_of_nameOf ((h.index name k).1 hlookup))
    have hissue : g.issue (.intern name) = [] := by
      rw [issue, intern_of_lookup hlookup, if_pos hk]
    rw [hissue, List.append_nil, intern_of_lookup hlookup]
    exact h
  | none =>
    obtain ⟨hhandle, hnodes, hindex, hnext, -⟩ := intern_of_lookup_none hlookup
    have hnew := next_not_mem h
    have hfree : (g.next : Handle) ∉ g.handles := fun hmem => hnew (h.live _ hmem)
    have hissue : g.issue (.intern name) = [(g.next : Handle)] := by
      rw [issue, hhandle, if_neg (mt hasNode_iff.1 hfree)]
    rw [setName_of_not_mem hfree] at hnodes
    have hnameOf (k : Handle) (n : Text) : (g.intern name).2.nameOf k = .ok n ↔
        g.nameOf k = .ok n ∨ k = (g.next : Handle) ∧ n = name := by
      rw [nameOf_eq_ok, nameOf_eq_ok, hnodes, List.mem_append, List.mem_singleton, Prod.mk.injEq,
        Option.some.injEq]
    have hhandles (k : Handle) : k ∈ (g.intern name).2.handles ↔
        k ∈ g.handles ∨ k = (g.next : Handle) := by
      rw [handles, hnodes, List.map_append, List.mem_append, List.map_singleton, List.mem_singleton,
        handles]
    rw [hissue]
    refine ⟨?_, ?_, ?_, ?_, ?_⟩
    · intro k hk
      rcases (hhandles k).1 hk with hk | rfl
      · obtain ⟨n, hn⟩ := h.named k hk
        exact ⟨n, (hnameOf k n).2 (.inl hn)⟩
      · exact ⟨name, (hnameOf _ name).2 (.inr ⟨rfl, rfl⟩)⟩
    · intro n k
      rw [hnameOf, hindex, List.lookup_append, ← h.index]
      by_cases hn : n = name
      · subst hn
        simp [hlookup, eq_comm]
      · simp [hn, List.lookup_cons, beq_false_of_ne hn]
    · intro k hk
      rw [hnext]
      rcases List.mem_append.1 hk with hk | hk
      · obtain ⟨n, hn, rfl⟩ := h.below k hk
        exact ⟨n, by omega, rfl⟩
      · exact ⟨g.next, by omega, List.mem_singleton.1 hk⟩
    · exact nodup_concat_of_not_mem h.once hnew
    · intro k hk
      rcases (hhandles k).1 hk with hk | rfl
      · exact List.mem_append_left _ (h.live k hk)
      · exact List.mem_append_right _ (List.mem_singleton_self _)

/-- What is said of nodes and names holds of every graph with the same nodes and names. -/
theorem InStep.congr {g' : CallGraph} (h : InStep issued g) (hnodes : g'.nodes = g.nodes)
    (hindex : g'.index = g.index) (hnext : g'.next = g.next) : InStep issued g' := by
  have hhandles : g'.handles = g.handles := by rw [handles, hnodes, handles]
  have hnameOf (k : Handle) : g'.nameOf k = g.nameOf k := by rw [nameOf, hnodes, nameOf]
  refine ⟨?_, ?_, ?_, h.once, ?_⟩
  · intro k hk
    rw [hhandles] at hk
    rw [hnameOf]
    exact h.named k hk
  · intro name k
    rw [hindex, hnameOf]
    exact h.index name k
  · rw [hnext]
    exact h.below
  · rw [hhandles]
    exact h.live

theorem next_removeCalls (g : CallGraph) (ids : List CallId) :
    (g.removeCalls ids).next = g.next := by
  induction ids generalizing g with
  | nil => rfl
  | cons id ids ih => exact ih (g.removeCall id)

/-- Where all nodes have names, any handles can be removed: those of nodes are, and the others are
ignored. -/
theorem removeNodes_named (hg : g.Named) (hs : List Handle) :
    ∃ names, (hs.filter g.hasNode).mapM g.nameOf = .ok names ∧
      g.removeNodes hs =
        (({ g with index := g.index.filter fun e => !names.contains e.1 } : CallGraph).dropNodes
          (hs.filter g.hasNode), .ok ()) := by
  obtain ⟨names, hnames⟩ := mapM_ok (l := hs.filter g.hasNode) (f := g.nameOf) fun k hk =>
    hg k (hasNode_iff.1 (List.mem_filter.1 hk).2)
  refine ⟨names, hnames, ?_⟩
  rw [← removeNodes_ok hnames, removeNodes, removeNodes, List.filter_filter]
  simp only [Bool.and_self]

theorem InStep.removeNodes (h : InStep issued g) (hs : List Handle) :
    InStep issued (g.removeNodes hs).1 := by
  obtain ⟨names, hnames, hremoved⟩ := removeNodes_named h.named hs
  obtain ⟨hnodes, -⟩ := removeNodes_rest hremoved
  have hnameOf (k : Handle) (name : Text) :
      (g.removeNodes hs).1.nameOf k = .ok name ↔ g.nameOf k = .ok name ∧ k ∉ hs := by
    rw [hremoved, nameOf_eq_ok, nameOf_eq_ok, hnodes, List.mem_filter, decide_eq_true_iff]
  have hindex (name : Text) : (g.removeNodes hs).1.index.lookup name =
      if name ∈ names then none else g.index.lookup name := by
    rw [hremoved]
    show (g.index.filter fun e => !names.contains e.1).lookup name = _
    rw [lookup_filter fun n => !names.contains n]
    by_cases hname : name ∈ names
    · simp [hname]
    · simp [hname]
  -- a name is taken out of the index exactly if its node is removed
  have hdoomed {k : Handle} {name : Text} (hk : g.nameOf k = .ok name) : name ∈ names ↔ k ∈ hs := by
    have hread : name ∈ names ↔ Except.ok name ∈ (hs.filter g.hasNode).map g.nameOf := by
      rw [mapM_eq_ok.1 hnames]
      simp
    rw [hread, List.mem_map]
    constructor
    · rintro ⟨k', hk', hname⟩
      have hsame := ((h.index name k).2 hk).symm.trans ((h.index name k').2 hname)
      rw [Option.some.inj hsame]
      exact (List.mem_filter.1 hk').1
    · intro hmem
      exact ⟨k, List.mem_filter.2 ⟨hmem, hasNode_iff.2 (mem_handles_of_nameOf hk)⟩, hk⟩
  have hlive {k : Handle} (hk : k ∈ (g.removeNodes hs).1.handles) : k ∈ g.handles ∧ k ∉ hs := by
    rw [hremoved, handles, hnodes] at hk
    obtain ⟨node, hnode, rfl⟩ := List.mem_map.1 hk
    obtain ⟨hnode, hkept⟩ := List.mem_filter.1 hnode
    exact ⟨List.mem_map_of_mem hnode, of_decide_eq_true hkept⟩
  refine ⟨?_, ?_, ?_, h.once, fun k hk => h.live k (hlive hk).1⟩
  · intro k hk
    obtain ⟨hk, hkept⟩ := hlive hk
    obtain ⟨name, hname⟩ := h.named k hk
    exact ⟨name, (hnameOf k name).2 ⟨hname, hkept⟩⟩
  · intro name k
    rw [hindex, hnameOf]
    by_cases hk : g.nameOf k = .ok name
    · by_cases hmem : k ∈ hs
      · simp [(hdoomed hk).2 hmem, hmem]
      · simp [mt (hdoomed hk).1 hmem, hmem, hk, (h.index name k).2 hk]
    · split
      · simp [hk]
      · rw [h.index]
        simp [hk]
  · rw [hremoved]
    exact h.below

/-- One change. -/
theorem InStep.after (h : InStep issued g) (c : Change) (permitted : g.Permits c) :
    InStep (issued ++ g.issue c) (g.after c) := by
  cases c with
  | intern name => exact h.intern name
  | addCall source target location =>
    obtain ⟨hnodes, hindex, hnext, -⟩ := addCall_of_mem permitted.1 permitted.2 location
    rw [issue, List.append_nil]
    exact h.congr hnodes hindex hnext
  | removeCalls ids =>
    obtain ⟨hnodes, hindex⟩ := removeCalls_rest g ids
    rw [issue, List.append_nil]
    exact h.congr hnodes hindex (next_removeCalls g ids)
  | removeNodes hs =>
    rw [issue, List.append_nil]
    exact h.removeNodes hs

/-- Any sequence of changes. -/
theorem History.inStep (h : History issued g) : InStep issued g := by
  induction h with
  | empty =>
    refine ⟨?_, ?_, ?_, List.nodup_nil, ?_⟩
    · exact fun k hk => absurd hk List.not_mem_nil
    · exact fun name k => ⟨nofun, nofun⟩
    · exact fun k hk => absurd hk List.not_mem_nil
    · exact fun k hk => absurd hk List.not_mem_nil
  | change _ c permitted ih => exact ih.after c permitted

/-! ## What is found -/

theorem InStep.handleOf_eq_some (h : InStep issued g) {name : Text} {k : Handle} :
    g.handleOf name = some k ↔ g.nameOf k = .ok name := by
  rw [← h.index, handleOf]
  cases hlookup : g.index.lookup name with
  | none => simp
  | some k' =>
    have hk' := hasNode_iff.2 (mem_handles_of_nameOf ((h.index name k').1 hlookup))
    simp [hk']

/-- A name without a node gets a handle that has never been given out, and any other keeps its
own. -/
theorem InStep.intern_cases (h : InStep issued g) (name : Text) :
    match g.handleOf name with
    | some k => g.intern name = (k, g)
    | none =>
      (g.intern name).1 ∉ issued ∧ (g.intern name).2.nameOf (g.intern name).1 = .ok name := by
  cases hfound : g.handleOf name with
  | some k => exact intern_of_lookup ((h.index name k).2 (h.handleOf_eq_some.1 hfound))
  | none =>
    have hlookup : g.index.lookup name = none := by
      refine Option.eq_none_iff_forall_ne_some.2 fun k hk => ?_
      rw [h.handleOf_eq_some.2 ((h.index name k).1 hk)] at hfound
      cases hfound
    obtain ⟨hhandle, hnodes, -⟩ := intern_of_lookup_none hlookup
    have hnew := next_not_mem h
    rw [setName_of_not_mem fun hmem => hnew (h.live _ hmem)] at hnodes
    rw [hhandle, nameOf_eq_ok, hnodes]
    exact ⟨hnew, List.mem_append_right _ (List.mem_singleton_self _)⟩

/-- A removed name is not found. -/
theorem InStep.handleOf_removeNodes (h : InStep issued g) {hs : List Handle} {k : Handle}
    {name : Text} (hk : k ∈ hs) (hname : g.nameOf k = .ok name) :
    (g.removeNodes hs).1.handleOf name = none := by
  refine Option.eq_none_iff_forall_ne_some.2 fun k' hk' => ?_
  have hname' := (h.removeNodes hs).handleOf_eq_some.1 hk'
  obtain ⟨_, -, hremoved⟩ := removeNodes_named h.named hs
  rw [hremoved, nameOf_eq_ok, (removeNodes_rest hremoved).1, List.mem_filter,
    ← nameOf_eq_ok] at hname'
  have hsame := (h.handleOf_eq_some.2 hname).symm.trans (h.handleOf_eq_some.2 hname'.1)
  rw [← Option.some.inj hsame] at hname'
  exact of_decide_eq_true hname'.2 hk

/-! ## Calls -/

/-- A call is put to those between the same nodes, and nothing else changes. -/
theorem calls_addSite (source target : Handle) (location : SourceLocation) (bundles : List Bundle) :
    ((addSite source target location bundles).2.flatMap Bundle.calls).Perm
      ({ source, target, key := (addSite source target location bundles).1, location } ::
        bundles.flatMap Bundle.calls) := by
  induction bundles with
  | nil => exact .refl _
  | cons b rest ih =>
    rw [addSite]
    by_cases hjoins : b.joins source target = true
    · obtain ⟨rfl, rfl⟩ := Prod.mk.inj (Bundle.joins_iff.1 hjoins)
      have hadd : (b.add location).calls = b.calls ++
          [{ source := b.source, target := b.target, key := freshKey b.keys, location }] := by
        simp [Bundle.calls, Bundle.add]
      simp only [if_pos hjoins, List.flatMap_cons, hadd, List.append_assoc, List.singleton_append]
      exact List.perm_middle
    · simp only [if_neg hjoins, List.flatMap_cons]
      exact (ih.append_left b.calls).trans List.perm_middle

theorem bundles_addNode (g : CallGraph) (k : Handle) : (g.addNode k).bundles = g.bundles := by
  unfold addNode
  split <;> rfl

/-- Adding a call adds one call, with an identity that no call of the graph has. -/
theorem calls_addCall (g : CallGraph) (source target : Handle) (location : SourceLocation) :
    ∃ c : Call, c.source = source ∧ c.target = target ∧ c.location = location ∧
      (g.addCall source target location).1 = c.id ∧ c.id ∉ g.calls.map Call.id ∧
      (g.addCall source target location).2.calls.Perm (c :: g.calls) := by
  have hbundles : ((g.addNode source).addNode target).bundles = g.bundles := by
    rw [bundles_addNode, bundles_addNode]
  have hperm := calls_addSite source target location ((g.addNode source).addNode target).bundles
  have hcalls : (g.addCall source target location).2.calls.Perm
      ({ source, target, key := (g.addCall source target location).1.key, location } ::
        g.calls) := by
    rw [calls, calls, ← hbundles]
    exact hperm
  refine ⟨_, rfl, rfl, rfl, rfl, ?_, hcalls⟩
  have hnodup := (hcalls.map Call.id).nodup_iff.1 (nodup_calls_id _)
  exact (List.nodup_cons.1 hnodup).1

/-- A call is listed once with its caller and once with its callee. -/
theorem count_calls {c : Call} (hc : c ∈ g.calls) :
    ((g.callsFrom c.source).map Call.id).count c.id = 1 ∧
      ((g.callsInto c.target).map Call.id).count c.id = 1 := by
  have hfrom : ((g.callsFrom c.source).map Call.id).Nodup := by
    rw [callsFrom_eq_filter]
    exact (List.filter_sublist.map Call.id).nodup g.nodup_calls_id
  have hinto : ((g.callsInto c.target).map Call.id).Nodup := by
    rw [callsInto_eq_filter]
    exact (List.filter_sublist.map Call.id).nodup g.nodup_calls_id
  exact ⟨List.count_eq_one_of_mem hfrom (List.mem_map_of_mem (mem_callsFrom.2 ⟨hc, rfl⟩)),
    List.count_eq_one_of_mem hinto (List.mem_map_of_mem (mem_callsInto.2 ⟨hc, rfl⟩))⟩

/-- **Names, handles and calls stay in step.** After any sequence of changes of the empty graph,

* every node is found by its name, what is found under a name is a node with that name, and
  different nodes have different names;
* the handles that have been given out are below the next one and have been given out once.
  Interning a name that has a node returns its handle; any other name, and so one whose node was
  removed, gets a handle that has never been given out. Removing handles, whatever they are,
  succeeds, and the names of removed nodes are no longer found;
* every call joins nodes and is listed once with its caller and once with its callee. Adding a call
  between nodes adds exactly this call, with an identity that no call has, and changes neither nodes
  nor names. -/
theorem changes_keep_in_step (issued : List Handle) (g : CallGraph) (past : History issued g) :
    ((∀ k ∈ g.handles, ∃ name, g.nameOf k = .ok name ∧ g.handleOf name = some k) ∧
      (∀ name k, g.handleOf name = some k → k ∈ g.handles ∧ g.nameOf k = .ok name) ∧
      ∀ k ∈ g.handles, ∀ k' ∈ g.handles, k ≠ k' → g.nameOf k ≠ g.nameOf k') ∧
    ((∀ k ∈ issued, 0 ≤ k ∧ k < g.next) ∧ issued.Nodup ∧ (∀ k ∈ g.handles, k ∈ issued) ∧
      (∀ name k, g.handleOf name = some k → g.intern name = (k, g)) ∧
      (∀ name, g.handleOf name = none →
        (g.intern name).1 ∉ issued ∧ (g.intern name).2.nameOf (g.intern name).1 = .ok name) ∧
      ∀ hs, (g.removeNodes hs).2 = .ok () ∧
        ∀ k ∈ hs, ∀ name, g.nameOf k = .ok name → (g.removeNodes hs).1.handleOf name = none) ∧
    (∀ c ∈ g.calls, c.source ∈ g.handles ∧ c.target ∈ g.handles ∧
      ((g.callsFrom c.source).map Call.id).count c.id = 1 ∧
      ((g.callsInto c.target).map Call.id).count c.id = 1) ∧
    ∀ source ∈ g.handles, ∀ target ∈ g.handles, ∀ location,
      ((g.addCall source target location).2.nodes = g.nodes ∧
        (g.addCall source target location).2.index = g.index) ∧
      ∃ c : Call, c.source = source ∧ c.target = target ∧ c.location = location ∧
        (g.addCall source target location).1 = c.id ∧ c.id ∉ g.calls.map Call.id ∧
        (g.addCall source target location).2.calls.Perm (c :: g.calls) := by
  have h := past.inStep
  refine ⟨⟨?_, ?_, ?_⟩, ⟨?_, h.once, h.live, ?_, ?_, ?_⟩, ?_, ?_⟩
  · intro k hk
    obtain ⟨name, hname⟩ := h.named k hk
    exact ⟨name, hname, h.handleOf_eq_some.2 hname⟩
  · intro name k hk
    have hname := h.handleOf_eq_some.1 hk
    exact ⟨mem_handles_of_nameOf hname, hname⟩
  · intro k hk k' _ hne hsame
    obtain ⟨name, hname⟩ := h.named k hk
    have hfound := h.handleOf_eq_some.2 hname
    rw [h.handleOf_eq_some.2 (hsame ▸ hname)] at hfound
    exact hne (Option.some.inj hfound).symm
  · intro k hk
    obtain ⟨n, hn, rfl⟩ := h.below k hk
    exact ⟨Int.natCast_nonneg n, Int.ofNat_lt.2 hn⟩
  · intro name k hk
    have hcases := h.intern_cases name
    rwa [hk] at hcases
  · intro name hnone
    have hcases := h.intern_cases name
    rwa [hnone] at hcases
  · intro hs
    obtain ⟨_, -, hremoved⟩ := removeNodes_named h.named hs
    exact ⟨by rw [hremoved], fun k hk name hname => h.handleOf_removeNodes hk hname⟩
  · intro c hc
    obtain ⟨hsource, htarget⟩ := live_of_mem_calls hc
    exact ⟨hsource, htarget, count_calls hc⟩
  · intro source hsource target htarget location
    obtain ⟨hnodes, hindex, -⟩ := addCall_of_mem hsource htarget location
    exact ⟨⟨hnodes, hindex⟩, calls_addCall g source target location⟩

/-- The functions `a` and `b`, where `b` calls itself. The first of two calls is removed before a
third one is added, and `a` is removed, named twice and together with a handle without a node,
before it is interned again. -/
def reinterning : List Change := [
  .intern ['a'], .intern ['b'], .addCall 1 1 { file := [], line := 1 },
    .addCall 1 1 { file := [], line := 2 },
  .removeCalls [{ source := 1, target := 1, key := 0 }], .addCall 1 1 { file := [], line := 3 },
  .removeNodes [0, 0, 7], .intern ['a']]

/-- The name has a new handle, and a call that is added has a new key. -/
theorem changes_keep_in_step_reinterned :
    ∃ g, History [0, 1, 2] g ∧ g.handles = [1, 2] ∧ g.handleOf ['a'] = some 2 ∧
      g.nameOf 2 = .ok ['a'] ∧
      g.calls.map Call.key = [1, 2] ∧
      ∃ c : Call, c.id = { source := 1, target := 1, key := 3 } ∧ c.id ∉ g.calls.map Call.id ∧
        (g.addCall 1 1 { file := [], line := 4 }).2.calls.Perm (c :: g.calls) := by
  have past : History [0, 1, 2] (reinterning.foldl after {}) :=
    ((((((((History.empty.change (.intern ['a']) trivial).change (.intern ['b']) trivial).change
      (.addCall 1 1 { file := [], line := 1 }) (by decide)).change
      (.addCall 1 1 { file := [], line := 2 }) (by decide)).change
      (.removeCalls [{ source := 1, target := 1, key := 0 }]) trivial).change
      (.addCall 1 1 { file := [], line := 3 }) (by decide)).change
      (.removeNodes [0, 0, 7]) trivial).change (.intern ['a']) trivial)
  have hvalues : (reinterning.foldl after {}).handles = [1, 2] ∧
      (reinterning.foldl after {}).handleOf ['a'] = some 2 ∧
      (reinterning.foldl after {}).calls.map Call.key = [1, 2] ∧
      ((reinterning.foldl after {}).addCall 1 1 { file := [], line := 4 }).1 =
        { source := 1, target := 1, key := 3 } := by
    decide +kernel
  generalize reinterning.foldl after {} = g at past hvalues
  obtain ⟨hhandles, hfound, hkeys, hid⟩ := hvalues
  obtain ⟨⟨-, hnamed, -⟩, -, -, hadd⟩ := changes_keep_in_step [0, 1, 2] g past
  have hmem : (1 : Handle) ∈ g.handles := by rw [hhandles]; exact List.mem_cons_self
  obtain ⟨-, c, -, -, -, hc, hnew, hperm⟩ := hadd 1 hmem 1 hmem { file := [], line := 4 }
  exact ⟨g, past, hhandles, hfound, (hnamed ['a'] 2 hfound).2, hkeys, c, hc.symm.trans hid,
    hnew, hperm⟩

end CallAudit.CallGraph
