import CallAudit.Graph.Build
import CallAudit.Proofs.Results
import Mathlib.Tactic

/-!
# Graphs whose nodes have names

A node that comes in as the end of a call has no name, and neither an audit nor a pruning can show
it. In a graph of call records all ends of calls are interned names. Its nodes are the names that
occur, numbered in the order of their first occurrence, and its calls are bundled up edge by edge
(`Built`, `built_ofRecords`); so every node has a name, and no two nodes share one.
-/

namespace CallAudit

theorem nodup_eraseDups {α : Type} [BEq α] [LawfulBEq α] (l : List α) : l.eraseDups.Nodup := by
  induction hn : l.length using Nat.strong_induction_on generalizing l with
  | _ n ih =>
    cases l with
    | nil => exact List.nodup_nil
    | cons a l =>
      have hlt : (l.filter fun b => !b == a).length < n := by
        have hle := List.length_filter_le (fun b => !b == a) l
        rw [← hn, List.length_cons]
        omega
      rw [List.eraseDups_cons, List.nodup_cons, List.mem_eraseDups]
      exact ⟨by simp, ih _ hlt _ rfl⟩

/-- A further occurrence counts if it is the first one. -/
theorem eraseDups_concat {α : Type} [BEq α] [LawfulBEq α] [DecidableEq α] (l : List α) (a : α) :
    (l ++ [a]).eraseDups = if a ∈ l then l.eraseDups else l.eraseDups ++ [a] := by
  rw [List.eraseDups_append]
  by_cases ha : a ∈ l
  · simp [List.removeAll, ha]
  · simp [List.removeAll, ha, List.eraseDups_cons]

namespace CallGraph

variable {g : CallGraph}

/-- Every node has a name. -/
def Named (g : CallGraph) : Prop := ∀ h ∈ g.handles, ∃ name, g.nameOf h = .ok name

/-- A node with a name belongs to the graph. -/
theorem mem_handles_of_nameOf {h : Handle} {name : Text} (hname : g.nameOf h = .ok name) :
    h ∈ g.handles := by
  by_contra hh
  have hnone : g.nodes.lookup h = none := by
    refine List.lookup_eq_none_iff.2 fun node hnode => bne_iff_ne.2 ?_
    rintro rfl
    exact hh (List.mem_map_of_mem hnode)
  simp [nameOf, hnone] at hname

/-- No two nodes have one name. -/
def Distinct (g : CallGraph) : Prop :=
  ∀ h k name, g.nameOf h = .ok name → g.nameOf k = .ok name → h = k

theorem nameOf_eq_ok {h : Handle} {name : Text} :
    g.nameOf h = .ok name ↔ (h, some name) ∈ g.nodes := by
  rw [← lookup_eq_some_iff_mem g.distinctNodes, nameOf]
  split
  · next hnone => simp [hnone]
  · next hunnamed => simp [hunnamed]
  · next name' hname => simp [hname]

/-! ## Numbering names -/

/-- The handle of a name if names are numbered in the order of their first occurrence. -/
def handleIn (seen : List Text) (name : Text) : Handle := (seen.eraseDups.idxOf name : Int)

/-- Different names have different numbers. -/
theorem handleIn_injective {seen : List Text} {m n : Text} (hm : m ∈ seen)
    (h : handleIn seen m = handleIn seen n) : m = n :=
  (List.idxOf_inj (List.mem_eraseDups.2 hm)).1 (Int.ofNat.inj h)

/-- A name keeps its handle when further names occur. -/
theorem handleIn_append {seen : List Text} {name : Text} (hname : name ∈ seen) (more : List Text) :
    handleIn (seen ++ more) name = handleIn seen name := by
  rw [handleIn, handleIn, List.eraseDups_append,
    List.idxOf_append_of_mem (List.mem_eraseDups.2 hname)]

/-- The nodes of a graph are the names that have occurred, numbered in the order of their first
occurrence, and the index leads back to them. -/
structure Numbered (seen : List Text) (g : CallGraph) : Prop where
  nodes : g.nodes = seen.eraseDups.mapIdx fun i name => ((i : Handle), some name)
  index : g.index = seen.eraseDups.mapIdx fun i name => (name, (i : Handle))
  next : g.next = seen.eraseDups.length

theorem lookup_mapIdx (f : Nat → Handle) (names : List Text) (name : Text) :
    (names.mapIdx fun i n => (n, f i)).lookup name =
      if name ∈ names then some (f (names.idxOf name)) else none := by
  induction names generalizing f with
  | nil => simp
  | cons n names ih =>
    rw [List.mapIdx_cons, List.lookup_cons]
    by_cases hname : name = n
    · simp [hname]
    · rw [beq_false_of_ne hname, ih]
      simp [hname, List.idxOf_cons, beq_false_of_ne (Ne.symm hname)]

theorem setName_of_not_mem {name : Text} {h : Handle} {nodes : List (Handle × Option Text)}
    (hh : h ∉ nodes.map (·.1)) : setName name h nodes = nodes ++ [(h, some name)] := by
  induction nodes with
  | nil => rfl
  | cons node rest ih =>
    obtain ⟨k, n⟩ := node
    rw [List.map_cons, List.mem_cons, not_or] at hh
    rw [setName, if_neg (Ne.symm hh.1), ih hh.2]
    rfl

/-- A name that the index does not have gets the next handle. -/
theorem intern_of_lookup_none {name : Text} (h : g.index.lookup name = none) :
    (g.intern name).1 = (g.next : Handle) ∧ (g.intern name).2.nodes = setName name g.next g.nodes ∧
      (g.intern name).2.index = g.index ++ [(name, (g.next : Handle))] ∧
      (g.intern name).2.next = g.next + 1 ∧ (g.intern name).2.bundles = g.bundles := by
  simp only [intern, h, and_self]

/-- A name that is known keeps its handle. -/
theorem intern_of_lookup {name : Text} {k : Handle} (h : g.index.lookup name = some k) :
    g.intern name = (k, g) := by
  simp only [intern, h]

namespace Numbered

variable {seen : List Text}

theorem nameOf_eq_ok (hg : Numbered seen g) {h : Handle} {name : Text} :
    g.nameOf h = .ok name ↔ name ∈ seen ∧ handleIn seen name = h := by
  rw [CallGraph.nameOf_eq_ok, hg.nodes, List.mem_mapIdx]
  constructor
  · rintro ⟨i, hi, e⟩
    obtain ⟨rfl, hname⟩ := Prod.mk.inj e
    obtain rfl := Option.some.inj hname
    refine ⟨List.mem_eraseDups.1 (List.getElem_mem hi), ?_⟩
    rw [handleIn, (nodup_eraseDups seen).idxOf_getElem i hi]
  · rintro ⟨hname, rfl⟩
    have hi := List.idxOf_lt_length_of_mem (List.mem_eraseDups.2 hname)
    exact ⟨_, hi, by rw [List.getElem_idxOf hi]; rfl⟩

/-- The handles of a numbered graph are the numbers of its names. -/
theorem mem_handles (hg : Numbered seen g) {h : Handle} :
    h ∈ g.handles ↔ ∃ name ∈ seen, handleIn seen name = h := by
  constructor
  · intro hh
    obtain ⟨node, hnode, rfl⟩ := List.mem_map.1 hh
    rw [hg.nodes] at hnode
    obtain ⟨i, hi, rfl⟩ := List.mem_mapIdx.1 hnode
    refine ⟨seen.eraseDups[i], List.mem_eraseDups.1 (List.getElem_mem hi), ?_⟩
    rw [handleIn, (nodup_eraseDups seen).idxOf_getElem i hi]
  · rintro ⟨name, hname, rfl⟩
    exact mem_handles_of_nameOf (hg.nameOf_eq_ok.2 ⟨hname, rfl⟩)

theorem handleIn_mem (hg : Numbered seen g) {name : Text} (hname : name ∈ seen) :
    handleIn seen name ∈ g.handles :=
  hg.mem_handles.2 ⟨name, hname, rfl⟩

/-- Every node of a numbered graph has a name. -/
theorem named (hg : Numbered seen g) : g.Named := by
  intro h hh
  obtain ⟨name, hname, rfl⟩ := hg.mem_handles.1 hh
  exact ⟨name, hg.nameOf_eq_ok.2 ⟨hname, rfl⟩⟩

/-- No two nodes of a numbered graph have the same name. -/
theorem distinct (hg : Numbered seen g) : g.Distinct := by
  intro h k name hh hk
  rw [← (hg.nameOf_eq_ok.1 hh).2, ← (hg.nameOf_eq_ok.1 hk).2]

/-- Interning a name gives it its number, and changes no call. -/
theorem intern (hg : Numbered seen g) (name : Text) :
    Numbered (seen ++ [name]) (g.intern name).2 ∧
      (g.intern name).1 = handleIn (seen ++ [name]) name ∧
        (g.intern name).2.bundles = g.bundles := by
  have hlookup : g.index.lookup name = if name ∈ seen then some (handleIn seen name) else none := by
    rw [hg.index, lookup_mapIdx fun i => (i : Handle)]
    simp only [List.mem_eraseDups]
    rfl
  by_cases hname : name ∈ seen
  · -- the name is known and stays where it is
    rw [if_pos hname] at hlookup
    have hsame : (seen ++ [name]).eraseDups = seen.eraseDups := by
      rw [eraseDups_concat, if_pos hname]
    rw [intern_of_lookup hlookup]
    refine ⟨⟨?_, ?_, ?_⟩, (handleIn_append hname [name]).symm, rfl⟩
    · rw [hsame, hg.nodes]
    · rw [hsame, hg.index]
    · rw [hsame, hg.next]
  · -- the name gets the next number
    rw [if_neg hname] at hlookup
    have hmore : (seen ++ [name]).eraseDups = seen.eraseDups ++ [name] := by
      rw [eraseDups_concat, if_neg hname]
    have hnew : (g.next : Handle) ∉ g.nodes.map (·.1) := by
      intro hmem
      obtain ⟨m, hm, e⟩ := hg.mem_handles.1 hmem
      have hlt := List.idxOf_lt_length_of_mem (List.mem_eraseDups.2 hm)
      have hidx : seen.eraseDups.idxOf m = g.next := Int.ofNat.inj e
      rw [hidx, hg.next] at hlt
      exact Nat.lt_irrefl _ hlt
    obtain ⟨hhandle, hnodes, hindex, hnext, hbundles⟩ := intern_of_lookup_none hlookup
    refine ⟨⟨?_, ?_, ?_⟩, ?_, hbundles⟩
    · rw [hnodes, setName_of_not_mem hnew, hmore, List.mapIdx_concat, hg.nodes, hg.next]
    · rw [hindex, hmore, List.mapIdx_concat, hg.index, hg.next]
    · rw [hnext, hmore, List.length_append, hg.next, List.length_singleton]
    · have hnot : name ∉ seen.eraseDups := fun hmem => hname (List.mem_eraseDups.1 hmem)
      have hidx : (seen.eraseDups ++ [name]).idxOf name = seen.eraseDups.length := by
        rw [List.idxOf_append, if_neg hnot, List.idxOf_cons_self, Nat.zero_add]
      rw [handleIn, hmore, hidx, ← hg.next, hhandle]

end Numbered

/-! ## Graphs of call records -/

/-- A call between nodes only adds to the bundles. -/
theorem addCall_of_mem {source target : Handle} (hsource : source ∈ g.handles)
    (htarget : target ∈ g.handles) (location : SourceLocation) :
    (g.addCall source target location).2.nodes = g.nodes ∧
      (g.addCall source target location).2.index = g.index ∧
      (g.addCall source target location).2.next = g.next ∧
      (g.addCall source target location).2.bundles =
        (addSite source target location g.bundles).2 := by
  have hnode {h : Handle} (hh : h ∈ g.handles) : g.addNode h = g :=
    dif_pos (List.contains_iff_mem.2 hh)
  have hsame : (g.addNode source).addNode target = g := by rw [hnode hsource, hnode htarget]
  unfold addCall
  simp only [hsame, and_self]

/-- The bundles of call edges, given with their callers, when names have the given handles. -/
def bundleUp (place : Text → Handle) (edges : List (Text × CallEdge)) : List Bundle :=
  edges.foldl (fun bundles e => (addSite (place e.1) (place e.2.calleeName) e.2.location bundles).2)
    []

/-- One more call is added to the bundles of those before. -/
theorem bundleUp_concat (place : Text → Handle) (edges : List (Text × CallEdge))
    (e : Text × CallEdge) :
    bundleUp place (edges ++ [e]) =
      (addSite (place e.1) (place e.2.calleeName) e.2.location (bundleUp place edges)).2 := by
  rw [bundleUp, List.foldl_concat]
  rfl

theorem bundleUp_congr {place place' : Text → Handle} {edges : List (Text × CallEdge)}
    (h : ∀ e ∈ edges, place e.1 = place' e.1 ∧ place e.2.calleeName = place' e.2.calleeName) :
    bundleUp place edges = bundleUp place' edges := by
  refine List.foldl_ext _ _ _ fun bundles e he => ?_
  rw [(h e he).1, (h e he).2]

/-- What has been built from the names and call edges that have occurred. -/
structure Built (seen : List Text) (edges : List (Text × CallEdge)) (r : Rooted) : Prop
    extends Numbered seen r.graph where
  known : ∀ e ∈ edges, e.1 ∈ seen ∧ e.2.calleeName ∈ seen
  bundles : r.graph.bundles = bundleUp (handleIn seen) edges
  roots : ∀ h, h ∈ r.roots ↔ ∃ e ∈ edges, e.2.isLangItem = true ∧ handleIn seen e.1 = h

namespace Rooted

variable {r : Rooted} {caller : Handle} {e : CallEdge}

theorem graph_addEdge : (addEdge caller r e).graph =
    ((r.graph.intern e.calleeName).2.addCall caller (r.graph.intern e.calleeName).1 e.location).2 :=
  rfl

theorem mem_roots_addEdge {h : Handle} :
    h ∈ (addEdge caller r e).roots ↔ h ∈ r.roots ∨ e.isLangItem = true ∧ caller = h := by
  show h ∈ (if e.isLangItem && !r.roots.contains caller then r.roots ++ [caller] else r.roots) ↔ _
  by_cases hlang : e.isLangItem = true
  · by_cases hroot : caller ∈ r.roots
    · have hmem : caller = h → h ∈ r.roots := fun e => e ▸ hroot
      simp [hlang, hroot, or_iff_left_of_imp hmem]
    · simp [hlang, hroot, eq_comm]
  · simp [hlang]

end Rooted

namespace Built

variable {seen : List Text} {edges : List (Text × CallEdge)} {r : Rooted}

/-- Interning a name adds a node if the name is new. -/
theorem intern (h : Built seen edges r) (name : Text) :
    Built (seen ++ [name]) edges { r with graph := (r.graph.intern name).2 } := by
  obtain ⟨hnumbered, -, hbundles⟩ := h.toNumbered.intern name
  have hplace {m : Text} (hm : m ∈ seen) := (handleIn_append hm [name]).symm
  refine ⟨hnumbered, ?_, ?_, ?_⟩
  · intro e he
    obtain ⟨hcaller, hcallee⟩ := h.known e he
    exact ⟨List.mem_append_left _ hcaller, List.mem_append_left _ hcallee⟩
  · show (r.graph.intern name).2.bundles = _
    rw [hbundles, h.bundles]
    exact bundleUp_congr fun e he => ⟨hplace (h.known e he).1, hplace (h.known e he).2⟩
  · intro k
    refine (h.roots k).trans (exists_congr fun e => and_congr_right fun he => ?_)
    rw [hplace (h.known e he).1]

/-- An edge of a known caller adds a call and, if it is a lang item, a root. -/
theorem addEdge (h : Built seen edges r) {caller : Text} (hcaller : caller ∈ seen) (e : CallEdge) :
    Built (seen ++ [e.calleeName]) (edges ++ [(caller, e)])
      (Rooted.addEdge (handleIn seen caller) r e) := by
  have hbuilt := h.intern e.calleeName
  have hmem : caller ∈ seen ++ [e.calleeName] := List.mem_append_left _ hcaller
  have hmem' : e.calleeName ∈ seen ++ [e.calleeName] :=
    List.mem_append_right _ (List.mem_singleton_self _)
  rw [← handleIn_append hcaller [e.calleeName]]
  obtain ⟨hnodes, hindex, hnext, hbundles⟩ := addCall_of_mem (hbuilt.handleIn_mem hmem)
    (hbuilt.handleIn_mem hmem') e.location
  rw [← (h.toNumbered.intern e.calleeName).2.1] at hnodes hindex hnext hbundles
  refine ⟨⟨hnodes.trans hbuilt.nodes, hindex.trans hbuilt.index, hnext.trans hbuilt.next⟩,
    ?_, ?_, ?_⟩
  · intro e' he'
    rcases List.mem_append.1 he' with he' | he'
    · exact hbuilt.known e' he'
    · obtain rfl := List.mem_singleton.1 he'
      exact ⟨hmem, hmem'⟩
  · rw [Rooted.graph_addEdge, hbundles, bundleUp_concat, ← hbuilt.bundles,
      (h.toNumbered.intern e.calleeName).2.1]
  · intro k
    rw [Rooted.mem_roots_addEdge, hbuilt.roots k]
    simp only [List.mem_append, List.mem_singleton, or_and_right, exists_or, exists_eq_left]

/-- The edges of a known caller, one after the other. -/
theorem addEdges (h : Built seen edges r) {caller : Text} (hcaller : caller ∈ seen)
    (more : List CallEdge) :
    Built (seen ++ more.map CallEdge.calleeName) (edges ++ more.map fun e => (caller, e))
      (more.foldl (Rooted.addEdge (handleIn seen caller)) r) := by
  induction more generalizing seen edges r with
  | nil => simpa using h
  | cons e more ih =>
    have hstep := ih (h.addEdge hcaller e) (List.mem_append_left _ hcaller)
    rw [handleIn_append hcaller] at hstep
    simpa using hstep

/-- A record makes its caller known and adds its edges. -/
theorem addRecord (h : Built seen edges r) (record : Text × List CallEdge) :
    Built (seen ++ record.1 :: record.2.map CallEdge.calleeName)
      (edges ++ record.2.map fun e => (record.1, e)) (r.addRecord record) := by
  have hcaller := (h.toNumbered.intern record.1).2.1
  have hmem : record.1 ∈ seen ++ [record.1] := List.mem_append_right _ (List.mem_singleton_self _)
  have hedges := (h.intern record.1).addEdges hmem record.2
  rw [← hcaller, List.append_assoc] at hedges
  exact hedges

end Built

/-- All names of call records, callers before their callees. -/
def namesIn (records : List (Text × List CallEdge)) : List Text :=
  records.flatMap fun record => record.1 :: record.2.map CallEdge.calleeName

/-- All edges of call records with their callers. -/
def edgesIn (records : List (Text × List CallEdge)) : List (Text × CallEdge) :=
  records.flatMap fun record => record.2.map fun e => (record.1, e)

/-- The graph of call records in closed form. -/
theorem built_ofRecords (records : List (Text × List CallEdge)) :
    Built (namesIn records) (edgesIn records) (ofRecords records) := by
  have hrecords {seen : List Text} {edges : List (Text × CallEdge)} {r : Rooted}
      (h : Built seen edges r) :
      Built (seen ++ namesIn records) (edges ++ edgesIn records)
        (records.foldl Rooted.addRecord r) := by
    induction records generalizing seen edges r with
    | nil => simpa [namesIn, edgesIn] using h
    | cons record records ih => simpa [namesIn, edgesIn] using ih (h.addRecord record)
  have hempty : Built [] [] {} :=
    ⟨⟨rfl, rfl, rfl⟩, fun _ he => absurd he List.not_mem_nil, rfl, by simp⟩
  exact hrecords hempty

/-- Every node of a graph of call records has a name. -/
theorem named_ofRecords (records : List (Text × List CallEdge)) : (ofRecords records).graph.Named :=
  (built_ofRecords records).named

end CallGraph

end CallAudit
