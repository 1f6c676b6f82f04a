import CallAudit.Invariant
import CallAudit.Record.Basic

/-!
# Call graphs

The nodes of a call graph are handles, given out in ascending order and never again after a removal;
each stands for a function name. Between two nodes there may be several calls, told apart by a key.
The calls out of a node are listed by callee, the callees in the order in which they were first
called, and so are the calls into a node by caller. A pair of nodes whose last call is removed loses
its place.
-/

namespace CallAudit

/-- A node of a call graph. -/
abbrev Handle := Int

/-- What tells the calls of a graph apart. -/
structure CallId where
  source : Handle
  target : Handle
  key : Nat
deriving DecidableEq

/-- A call of a graph with its call site. -/
structure Call where
  source : Handle
  target : Handle
  key : Nat
  location : SourceLocation
deriving DecidableEq

/-- The identity of a call. -/
def Call.id (c : Call) : CallId := { source := c.source, target := c.target, key := c.key }

/-- A list without repetitions stays one when something new is put at its end. -/
theorem nodup_concat_of_not_mem {α : Type} {l : List α} {a : α} (hl : l.Nodup) (ha : a ∉ l) :
    (l ++ [a]).Nodup := by
  refine List.nodup_append.2 ⟨hl, List.nodup_cons.2 ⟨List.not_mem_nil, List.nodup_nil⟩, ?_⟩
  intro b hb c hc e
  rw [List.mem_singleton] at hc
  subst e hc
  exact ha hb

/-- Looking up a key in the entries whose keys satisfy a test. -/
theorem lookup_filter {α β : Type} [BEq α] [LawfulBEq α] (p : α → Bool) (a : α) (l : List (α × β)) :
    (l.filter fun e => p e.1).lookup a = if p a then l.lookup a else none := by
  induction l with
  | nil => simp
  | cons e l ih =>
    obtain ⟨k, b⟩ := e
    cases hk : p k with
    | false =>
      rw [List.filter_cons_of_neg (by simp [hk]), ih]
      split
      · next ha =>
        have hne : (a == k) = false := by
          cases hak : a == k with
          | false => rfl
          | true => rw [eq_of_beq hak, hk] at ha; cases ha
        rw [List.lookup_cons, hne]
      · rfl
    | true =>
      rw [List.filter_cons_of_pos (by simp [hk]), List.lookup_cons, List.lookup_cons, ih]
      cases hak : a == k with
      | false => rfl
      | true => simp [eq_of_beq hak, hk]

/-- The first number from `k` on that is not among `keys`, looking at no more than `fuel`
numbers. -/
def firstUnused (keys : List Nat) : (fuel k : Nat) → Nat
  | 0, k => k
  | fuel + 1, k => if keys.contains k then firstUnused keys fuel (k + 1) else k

/-- The key of a further call: the number of calls there are, or the next number not in use. -/
def freshKey (keys : List Nat) : Nat := firstUnused keys keys.length keys.length

/-- The search succeeds when no more than `fuel` keys lie at or above its start. -/
theorem firstUnused_not_mem (keys : List Nat) (fuel k : Nat)
    (h : (keys.filter fun x => decide (k ≤ x)).length ≤ fuel) : firstUnused keys fuel k ∉ keys := by
  induction fuel generalizing k with
  | zero =>
    intro hk
    have hmem : k ∈ keys.filter fun x => decide (k ≤ x) :=
      List.mem_filter.2 ⟨hk, decide_eq_true (Nat.le_refl k)⟩
    have hpos := List.length_pos_of_mem hmem
    omega
  | succ fuel ih =>
    simp only [firstUnused]
    split
    · next hk =>
      apply ih
      -- the key `k` itself no longer counts from `k + 1` on
      have hsplit : (keys.filter fun x => decide (k + 1 ≤ x)) =
          (keys.filter fun x => decide (k ≤ x)).filter fun x => decide (x ≠ k) := by
        rw [List.filter_filter]
        congr 1
        funext x
        by_cases hx : x = k
        · simp [hx]
        · have : k + 1 ≤ x ↔ k ≤ x := by omega
          simp [hx, this]
      have hlt : (keys.filter fun x => decide (k + 1 ≤ x)).length <
          (keys.filter fun x => decide (k ≤ x)).length := by
        rw [hsplit]
        apply List.length_filter_lt_length_iff_exists.2
        exact ⟨k, List.mem_filter.2 ⟨by simpa using hk, by simp⟩, by simp⟩
      omega
    · next hk => simpa using hk

theorem freshKey_not_mem (keys : List Nat) : freshKey keys ∉ keys :=
  firstUnused_not_mem keys _ _ (List.length_filter_le _ _)

/-- The calls between two nodes, in the order in which they were added. -/
structure Bundle where
  source : Handle
  target : Handle
  sites : List (Nat × SourceLocation)
  /-- There is at least one call. -/
  occupied : sites ≠ []
  /-- No key is used twice. -/
  distinctKeys : (sites.map (·.1)).Nodup

namespace Bundle

/-- The calls of a bundle. -/
def calls (b : Bundle) : List Call :=
  b.sites.map fun (key, location) => { source := b.source, target := b.target, key, location }

/-- The nodes that the bundle joins. -/
def ends (b : Bundle) : Handle × Handle := (b.source, b.target)

/-- Whether the bundle joins the given nodes. -/
def joins (b : Bundle) (source target : Handle) : Bool := b.source == source && b.target == target

/-- The keys in use. -/
def keys (b : Bundle) : List Nat := b.sites.map (·.1)

/-- A bundle of one call. -/
def single (source target : Handle) (location : SourceLocation) : Bundle :=
  { source, target, sites := [(0, location)]
    occupied := List.cons_ne_nil _ _
    distinctKeys := List.nodup_cons.2 ⟨List.not_mem_nil, List.nodup_nil⟩ }

/-- The bundle with a further call. -/
def add (b : Bundle) (location : SourceLocation) : Bundle :=
  { b with
    sites := b.sites ++ [(freshKey b.keys, location)]
    occupied := List.append_ne_nil_of_right_ne_nil _ (List.cons_ne_nil _ _)
    distinctKeys := by
      rw [List.map_append]
      exact nodup_concat_of_not_mem b.distinctKeys (freshKey_not_mem b.keys) }

/-- The bundle without the call of a key, unless no call is left. -/
def remove? (b : Bundle) (key : Nat) : Option Bundle :=
  if h : b.sites.filter (·.1 != key) = [] then none
  else
    some { b with
      sites := b.sites.filter (·.1 != key)
      occupied := h
      distinctKeys := (List.Sublist.map _ List.filter_sublist).nodup b.distinctKeys }

theorem joins_iff {b : Bundle} {source target : Handle} :
    b.joins source target = true ↔ b.ends = (source, target) := by
  simp [joins, ends]

theorem ends_remove? {b b' : Bundle} {key : Nat} (h : b.remove? key = some b') :
    b'.ends = b.ends := by
  unfold remove? at h
  split at h
  · simp at h
  · rw [← Option.some.inj h]
    simp only [ends]

end Bundle

/-- A call graph. -/
structure CallGraph where
  /-- The nodes in the order in which they were added. A node that came in only as the end of a call
  has no name. -/
  nodes : List (Handle × Option Text) := []
  /-- The calls, bundled by their ends. -/
  bundles : List Bundle := []
  /-- The handle of each name. -/
  index : List (Text × Handle) := []
  /-- The next handle to be given out. -/
  next : Nat := 0
  /-- A handle belongs to one node. -/
  distinctNodes : (nodes.map (·.1)).Nodup := by exact List.nodup_nil
  /-- The calls between two nodes are in one bundle. -/
  distinctEnds : (bundles.map Bundle.ends).Nodup := by exact List.nodup_nil
  /-- Calls join nodes of the graph. -/
  liveEnds : ∀ b ∈ bundles, b.source ∈ nodes.map (·.1) ∧ b.target ∈ nodes.map (·.1) := by
    exact fun _ h => absurd h List.not_mem_nil

/-- Why a node has no name to show. -/
inductive GraphFault
  | unknownNode (handle : Handle)
  | unnamedNode
deriving DecidableEq

namespace CallGraph

/-- The broken invariant behind a handle that belongs to no node. -/
def unknownNode (handle : Value) : BrokenInvariant :=
  .of "unknown dependency graph node" [("handle", handle)]

/-- The handles in the order in which their nodes were added. -/
def handles (g : CallGraph) : List Handle := g.nodes.map (·.1)

/-- A bundle with the ends of a bundle of the graph joins nodes of the graph. -/
theorem live_of_mem_ends {g : CallGraph} {b : Bundle} (h : b.ends ∈ g.bundles.map Bundle.ends) :
    b.source ∈ g.handles ∧ b.target ∈ g.handles := by
  obtain ⟨b', hb', e⟩ := List.mem_map.1 h
  have hsource : b'.source = b.source := congrArg Prod.fst e
  have htarget : b'.target = b.target := congrArg Prod.snd e
  rw [← hsource, ← htarget]
  exact g.liveEnds b' hb'

/-- Whether a handle belongs to a node. -/
def hasNode (g : CallGraph) (h : Handle) : Bool := g.handles.contains h

/-- The name of a node. -/
def nameOf (g : CallGraph) (h : Handle) : Except GraphFault Text :=
  match g.nodes.lookup h with
  | none => .error (.unknownNode h)
  | some none => .error .unnamedNode
  | some (some name) => .ok name

/-- The node with a name. -/
def handleOf (g : CallGraph) (name : Text) : Option Handle :=
  match g.index.lookup name with
  | some h => if g.hasNode h then some h else none
  | none => none

/-- The calls out of a node. -/
def callsFrom (g : CallGraph) (h : Handle) : List Call :=
  (g.bundles.filter (·.source == h)).flatMap Bundle.calls

/-- The calls into a node. -/
def callsInto (g : CallGraph) (h : Handle) : List Call :=
  (g.bundles.filter (·.target == h)).flatMap Bundle.calls

/-- All calls. -/
def calls (g : CallGraph) : List Call := g.bundles.flatMap Bundle.calls

theorem source_of_mem_calls {b : Bundle} {c : Call} (h : c ∈ b.calls) : c.source = b.source := by
  obtain ⟨site, -, rfl⟩ := List.mem_map.1 h
  rfl

theorem target_of_mem_calls {b : Bundle} {c : Call} (h : c ∈ b.calls) : c.target = b.target := by
  obtain ⟨site, -, rfl⟩ := List.mem_map.1 h
  rfl

theorem mem_callsFrom {g : CallGraph} {h : Handle} {c : Call} :
    c ∈ g.callsFrom h ↔ c ∈ g.calls ∧ c.source = h := by
  simp only [callsFrom, calls, List.mem_flatMap, List.mem_filter, beq_iff_eq]
  constructor
  · rintro ⟨b, ⟨hb, hh⟩, hc⟩
    exact ⟨⟨b, hb, hc⟩, (source_of_mem_calls hc).trans hh⟩
  · rintro ⟨⟨b, hb, hc⟩, hh⟩
    exact ⟨b, ⟨hb, (source_of_mem_calls hc).symm.trans hh⟩, hc⟩

theorem mem_callsInto {g : CallGraph} {h : Handle} {c : Call} :
    c ∈ g.callsInto h ↔ c ∈ g.calls ∧ c.target = h := by
  simp only [callsInto, calls, List.mem_flatMap, List.mem_filter, beq_iff_eq]
  constructor
  · rintro ⟨b, ⟨hb, hh⟩, hc⟩
    exact ⟨⟨b, hb, hc⟩, (target_of_mem_calls hc).trans hh⟩
  · rintro ⟨⟨b, hb, hc⟩, hh⟩
    exact ⟨b, ⟨hb, (target_of_mem_calls hc).symm.trans hh⟩, hc⟩

/-- Calls join nodes of the graph. -/
theorem live_of_mem_calls {g : CallGraph} {c : Call} (h : c ∈ g.calls) :
    c.source ∈ g.handles ∧ c.target ∈ g.handles := by
  obtain ⟨b, hb, hc⟩ := List.mem_flatMap.1 h
  rw [source_of_mem_calls hc, target_of_mem_calls hc]
  exact g.liveEnds b hb

/-- The number of nodes. -/
def nodeCount (g : CallGraph) : Nat := g.nodes.length

/-- The number of calls. -/
def callCount (g : CallGraph) : Nat := g.calls.length

/-- Adds a node without a name unless it is there. -/
def addNode (g : CallGraph) (h : Handle) : CallGraph :=
  if hn : g.hasNode h then g
  else
    { g with
      nodes := g.nodes ++ [(h, none)]
      distinctNodes := by
        rw [List.map_append]
        exact nodup_concat_of_not_mem g.distinctNodes fun hk => hn (List.contains_iff_mem.2 hk)
      liveEnds := by
        intro b hb
        rw [List.map_append]
        exact (g.liveEnds b hb).imp (List.mem_append_left _) (List.mem_append_left _) }

theorem mem_handles_addNode {g : CallGraph} {h k : Handle} :
    k ∈ (g.addNode h).handles ↔ k ∈ g.handles ∨ k = h := by
  unfold addNode
  split
  · next hn =>
    have hmem : h ∈ g.handles := List.contains_iff_mem.1 hn
    constructor
    · exact Or.inl
    · rintro (hk | rfl)
      · exact hk
      · exact hmem
  · simp [handles]

/-- Gives a node its name, in place if it is there. -/
def setName (name : Text) (h : Handle) : List (Handle × Option Text) → List (Handle × Option Text)
  | [] => [(h, some name)]
  | (k, n) :: rest => if k = h then (k, some name) :: rest else (k, n) :: setName name h rest

/-- Naming a node changes no handle and adds at most the one that is named. -/
theorem map_fst_setName (name : Text) (h : Handle) (nodes : List (Handle × Option Text)) :
    (setName name h nodes).map (·.1) =
      if h ∈ nodes.map (·.1) then nodes.map (·.1) else nodes.map (·.1) ++ [h] := by
  induction nodes with
  | nil => simp [setName]
  | cons node rest ih =>
    obtain ⟨k, n⟩ := node
    by_cases hk : k = h
    · simp [setName, hk]
    · have hk' : ¬ h = k := fun e => hk e.symm
      simp only [setName, hk, if_false, List.map_cons, List.mem_cons, hk', false_or, ih]
      split <;> rfl

/-- The node of a name, a new one if the name has none. -/
def intern (g : CallGraph) (name : Text) : Handle × CallGraph :=
  match g.index.lookup name with
  | some h => (h, g)
  | none =>
    let h : Handle := g.next
    (h, { g with
      nodes := setName name h g.nodes
      index := g.index ++ [(name, h)]
      next := g.next + 1
      distinctNodes := by
        rw [map_fst_setName]
        split
        · exact g.distinctNodes
        · next hn => exact nodup_concat_of_not_mem g.distinctNodes hn
      liveEnds := by
        intro b hb
        rw [map_fst_setName]
        split
        · exact g.liveEnds b hb
        · exact (g.liveEnds b hb).imp (List.mem_append_left _) (List.mem_append_left _) })

/-- Adds a call to the bundle of its ends, a new one at the end if there is none. -/
def addSite (source target : Handle) (location : SourceLocation) : List Bundle → Nat × List Bundle
  | [] => (0, [.single source target location])
  | b :: rest =>
    if b.joins source target then (freshKey b.keys, b.add location :: rest)
    else
      let (key, rest) := addSite source target location rest
      (key, b :: rest)

theorem map_ends_addSite (source target : Handle) (location : SourceLocation)
    (bundles : List Bundle) :
    (addSite source target location bundles).2.map Bundle.ends =
      if (source, target) ∈ bundles.map Bundle.ends then bundles.map Bundle.ends
      else bundles.map Bundle.ends ++ [(source, target)] := by
  induction bundles with
  | nil => rfl
  | cons b rest ih =>
    simp only [addSite]
    by_cases hj : b.joins source target = true
    · have he := Bundle.joins_iff.1 hj
      have ha : (b.add location).ends = b.ends := rfl
      simp [hj, he, ha]
    · have he : ¬ (source, target) = b.ends := fun e => hj (Bundle.joins_iff.2 e.symm)
      simp only [hj, Bool.false_eq_true, if_false, List.map_cons, List.mem_cons, he, false_or, ih]
      split <;> rfl

/-- Adds a call; ends that are no nodes yet become nodes without a name. -/
def addCall (g : CallGraph) (source target : Handle) (location : SourceLocation) :
    CallId × CallGraph :=
  let g := (g.addNode source).addNode target
  ({ source, target, key := (addSite source target location g.bundles).1 },
    { g with
      bundles := (addSite source target location g.bundles).2
      distinctEnds := by
        rw [map_ends_addSite]
        split
        · exact g.distinctEnds
        · next hn => exact nodup_concat_of_not_mem g.distinctEnds hn
      liveEnds := by
        intro b hb
        have hsource : source ∈ g.handles :=
          mem_handles_addNode.2 (.inl (mem_handles_addNode.2 (.inr rfl)))
        have htarget : target ∈ g.handles := mem_handles_addNode.2 (.inr rfl)
        have he := List.mem_map_of_mem (f := Bundle.ends) hb
        rw [map_ends_addSite] at he
        split at he
        · exact live_of_mem_ends he
        · rcases List.mem_append.1 he with he | he
          · exact live_of_mem_ends he
          · rw [List.mem_singleton] at he
            cases he
            exact ⟨hsource, htarget⟩ })

/-- A bundle without one call, if any call is left. -/
def dropSite (id : CallId) (b : Bundle) : Option Bundle :=
  if b.joins id.source id.target then b.remove? id.key else some b

theorem ends_dropSite {id : CallId} {b b' : Bundle} (h : dropSite id b = some b') :
    b'.ends = b.ends := by
  unfold dropSite at h
  split at h
  · exact Bundle.ends_remove? h
  · rw [Option.some.inj h]

/-- Dropping a call drops at most a pair of ends, and no order changes. -/
theorem map_ends_filterMap_dropSite_sublist (id : CallId) (bundles : List Bundle) :
    ((bundles.filterMap (dropSite id)).map Bundle.ends).Sublist (bundles.map Bundle.ends) := by
  induction bundles with
  | nil => exact List.Sublist.refl _
  | cons b rest ih =>
    cases hb : dropSite id b with
    | none =>
      rw [List.filterMap_cons_none hb]
      exact ih.cons _
    | some b' =>
      rw [List.filterMap_cons_some hb, List.map_cons, List.map_cons, ends_dropSite hb]
      exact ih.cons_cons _

/-- Removes a call if it is there. -/
def removeCall (g : CallGraph) (id : CallId) : CallGraph :=
  { g with
    bundles := g.bundles.filterMap (dropSite id)
    distinctEnds := (map_ends_filterMap_dropSite_sublist id g.bundles).nodup g.distinctEnds
    liveEnds := fun _ hb =>
      live_of_mem_ends ((map_ends_filterMap_dropSite_sublist id g.bundles).subset
        (List.mem_map_of_mem hb)) }

/-- Removes the given calls; those that are not there are ignored. -/
def removeCalls (g : CallGraph) (ids : List CallId) : CallGraph := ids.foldl removeCall g

/-- Removes the given nodes with all their calls, leaving the names in the index. -/
def dropNodes (g : CallGraph) (hs : List Handle) : CallGraph :=
  { g with
    nodes := g.nodes.filter fun (h, _) => !hs.contains h
    bundles := g.bundles.filter fun b => !hs.contains b.source && !hs.contains b.target
    distinctNodes := (List.Sublist.map _ List.filter_sublist).nodup g.distinctNodes
    distinctEnds := (List.Sublist.map _ List.filter_sublist).nodup g.distinctEnds
    liveEnds := by
      intro b hb
      obtain ⟨hb, hends⟩ := List.mem_filter.1 hb
      obtain ⟨hsource, htarget⟩ := Bool.and_eq_true_iff.1 hends
      have hmem {k : Handle} (hk : k ∈ g.handles) (hlive : (!hs.contains k) = true) :
          k ∈ (g.nodes.filter fun (h, _) => !hs.contains h).map (·.1) := by
        obtain ⟨node, hnode, rfl⟩ := List.mem_map.1 hk
        exact List.mem_map_of_mem (List.mem_filter.2 ⟨hnode, hlive⟩)
      exact ⟨hmem (g.liveEnds b hb).1 hsource, hmem (g.liveEnds b hb).2 htarget⟩ }

/-- Takes a name out of the index. -/
def forget (g : CallGraph) (name : Text) : CallGraph :=
  { g with index := g.index.filter (·.1 != name) }

/-- Takes the names of the given nodes out of the index, up to the first node without a name. -/
def forgetAll (g : CallGraph) : List Handle → CallGraph × Except GraphFault Unit
  | [] => (g, .ok ())
  | h :: rest =>
    match g.nameOf h with
    | .error e => (g, .error e)
    | .ok name => forgetAll (g.forget name) rest

/-- Removes the given nodes with all their calls; handles without a node are ignored. A node without
a name stops the removal before any node is removed. -/
def removeNodes (g : CallGraph) (hs : List Handle) : CallGraph × Except GraphFault Unit :=
  let doomed := hs.filter g.hasNode
  match g.forgetAll doomed with
  | (g, .ok ()) => (g.dropNodes doomed, .ok ())
  | (g, .error e) => (g, .error e)

/-- The nodes with their names. -/
def named (g : CallGraph) : Except GraphFault (List (Handle × Text)) :=
  g.handles.mapM fun h => (g.nameOf h).map fun name => (h, name)

end CallGraph

end CallAudit
