import CallAudit.Proofs.IngestedAudits
import Mathlib.Data.List.TakeWhile

/-!
# Markings that make no difference

Every look-up of a marking is one of the definition behind a surviving node. Two sources that agree
on these definitions give the same analysis, and two depstores whose marking rows agree on them give
the same graph view, audit and log (`Analyzer.only_definitions_of_nodes_matter`). The name of a
definition has no type arguments, so a marking under a name with an opening bracket is never looked
up.
-/

namespace CallAudit

open CallGraph

/-- The name of a definition has no bracket. -/
theorem openBracket_not_mem_definitionName (name : Text) : openBracket ∉ definitionName name := by
  intro hmem
  have hne := List.mem_takeWhile_imp hmem
  simp at hne

/-! ## Analyses of records -/

namespace CallGraph

variable {g : CallGraph} {markings markings' : MarkingSource}

/-- Markings that differ only under names with brackets agree on every graph. -/
theorem agree_of_openBracket (h : ∀ name, openBracket ∉ name → markings' name = markings name)
    (g : CallGraph) : g.Agree markings markings' :=
  fun _ name _ => h _ (openBracket_not_mem_definitionName name)

/-- Markings that agree on a graph select the same entry points. -/
theorem entryPoints_congr (hagree : g.Agree markings markings') :
    g.entryPoints markings' = g.entryPoints markings := by
  unfold entryPoints
  cases hnodes : g.named with
  | error e => rfl
  | ok nodes => exact congrArg Except.ok (entriesAmong_congr hagree hnodes)

end CallGraph

namespace Analysis

variable {records : List (Text × List CallEdge)} {markings markings' : MarkingSource}

/-- They give the same audit of named entry points. -/
theorem auditNames_congr {g : CallGraph} (hagree : g.Agree markings markings') (scope : VisitScope)
    (names : List Text) :
    auditNames g markings' scope names = auditNames g markings scope names := by
  simp only [auditNames, audit_congr hagree]

/-- Analyses with sources that agree on the surviving nodes are the same. -/
theorem ofRecords_congr
    (hagree : ∀ pruned graph, surviving records = .ok (pruned, graph) →
    graph.Agree markings markings') (scope : VisitScope) (names : Option (List Text)) :
    ofRecords records markings' scope names = ofRecords records markings scope names := by
  unfold ofRecords
  cases hsurviving : surviving records with
  | error e => rfl
  | ok result =>
    have hgraph := hagree result.1 result.2 hsurviving
    cases names with
    | some names => simp only [auditNames_congr hgraph]
    | none => simp only [entryPoints_congr hgraph, audit_congr hgraph]

end Analysis

/-! ## Two depstores with the same calls -/

namespace Store

variable {α : Type} {s s' : Store α} {T T' : Table}

/-- A record is read the same where its row is the same. -/
theorem readRow_eq_of_get? {key : Text} (hpath : s'.path = s.path) (hformat : s'.format = s.format)
    (h : T'.get? (.text key) = T.get? (.text key)) : s'.readRow T' key = s.readRow T key := by
  rw [Access.readRow_congr hpath hformat, readRow, readRow, h]

end Store

namespace Analyzer

open Store Ingest

variable {t t' : FileTree} {M M' C : Table} {n n' : Nat} {a a' : Analyzer}

/-- Looking up the same definitions in tables that say the same of them: the answers are the same,
and so is what the stores know afterwards. -/
theorem lookUpAll_congr {s s' : Store MarkedItem} (hon : (⟨t, s⟩ : Access MarkedItem).On M n)
    (hon' : (⟨t', s'⟩ : Access MarkedItem).On M' n') (hmirrors : s.Mirrors M)
    (hmirrors' : s'.Mirrors M') {names : List Text}
    (h : ∀ name ∈ names, s'.readRow M' name = s.readRow M name) :
    ∃ u u' r, lookUpAll t s names = (u, r) ∧ lookUpAll t' s' names = (u', r) ∧
      (∀ key r, s.known key = some r → s'.known key = some r → u.known key = some r ∧
        u'.known key = some r) ∧
      (r = .ok () → ∀ name ∈ names, ∃ r, u.known name = some r ∧ u'.known name = some r) := by
  induction names generalizing s s' with
  | nil => exact ⟨s, s', .ok (), rfl, rfl, fun _ _ hk hk' => ⟨hk, hk'⟩, by simp⟩
  | cons name rest ih =>
    obtain ⟨s₁, hget, hafter, hknown⟩ := getIn_eq_readRow hon hmirrors name
    obtain ⟨s₁', hget', hafter', hknown'⟩ := getIn_eq_readRow hon' hmirrors' name
    obtain ⟨hname, hrest⟩ := List.forall_mem_cons.1 h
    rw [hname] at hget' hknown'
    rw [lookUpAll, lookUpAll, hget, hget']
    cases hread : s.readRow M name with
    | error e =>
      refine ⟨s₁, s₁', .error e, rfl, rfl, fun key r hk hk' => ?_, by simp⟩
      exact ⟨hafter.kept key r hk, hafter'.kept key r hk'⟩
    | ok r =>
      have hlater : ∀ name ∈ rest, s₁'.readRow M' name = s₁.readRow M name := by
        intro other hother
        rw [hafter.readRow_eq, hafter'.readRow_eq, hrest other hother]
      obtain ⟨u, u', result, hu, hu', hkept, hall⟩ :=
        ih hafter.on hafter'.on hafter.mirrors hafter'.mirrors hlater
      refine ⟨u, u', result, hu, hu', fun key r hk hk' => ?_, fun hok => ?_⟩
      · exact hkept key r (hafter.kept key r hk) (hafter'.kept key r hk')
      · exact List.forall_mem_cons.2 ⟨⟨r, hkept name r (hknown r hread) (hknown' r hread)⟩,
          hall hok⟩

/-- Two marking tables say the same of the definitions behind the nodes that survive of the
calls. -/
def RowsAgree (C M M' : Table) : Prop :=
  ∀ records pruned graph, readRows CallEdge.format.list C = .ok records →
    surviving records = .ok (pruned, graph) → ∀ k name, graph.nameOf k = .ok name →
    M'.get? (.text (definitionName name)) = M.get? (.text (definitionName name))

/-- Tables that differ only under names with brackets agree on every graph. -/
theorem rowsAgree_of_openBracket (h : ∀ name, openBracket ∉ name →
    M'.get? (.text name) = M.get? (.text name)) (C : Table) : RowsAgree C M M' :=
  fun _ _ _ _ _ _ name _ => h _ (openBracket_not_mem_definitionName name)

/-- Two analyses leave the same log records and the same result. -/
structure Alike {β : Type} (r r' : Analyzed β) : Prop where
  journal : r'.journal = r.journal
  result : r'.result = r.result

/-- Two analyzers of the same depstore, opened on files that may differ. -/
structure Paired (a a' : Analyzer) : Prop where
  scope : a'.scope = a.scope
  markings : a'.markings.path = a.markings.path
  calls : a'.calls.path = a.calls.path

/-- Depstores whose rows agree are viewed alike. -/
theorem view_alike (h : a.Over t M C) (h' : a'.Over t' M' C) (hpaired : Paired a a')
    (hrows : RowsAgree C M M') :
    Alike (a.view t) (a'.view t') ∧ ∀ v, (a.view t).result = .ok v →
      v.graph.Agree (cachedMarkings (a.view t).analyzer.markings)
        (cachedMarkings (a'.view t').analyzer.markings) := by
  obtain ⟨_, hcalls⟩ := h.calls
  obtain ⟨_, hcalls'⟩ := h'.calls
  obtain ⟨_, hmarkings⟩ := h.markings
  obtain ⟨_, hmarkings'⟩ := h'.markings
  obtain ⟨session, -, hrecords⟩ := Access.recordsIn_eq hcalls
  obtain ⟨session', -, hrecords'⟩ := Access.recordsIn_eq hcalls'
  have hsame : Access.recordsOf a'.calls C = Access.recordsOf a.calls C := by
    rw [Access.recordsOf, Access.recordsOf,
      Access.decodeRows_congr hpaired.calls (h'.callsFormat.trans h.callsFormat.symm)]
  rw [hsame] at hrecords'
  rcases Access.recordsOf_cases a.calls C with ⟨records, hread, hcallRows⟩ | ⟨_, _, hread, -⟩
  · rw [hread] at hrecords hrecords'
    rw [h.callsFormat] at hcallRows
    obtain ⟨pruned, graph, hsurviving, hnamed, -⟩ := named_surviving records
    obtain ⟨entries, hentries⟩ := hnamed.entryPoints fun _ => none
    obtain ⟨nodes, hnodes, -⟩ := entryPoints_eq_ok.1 hentries
    have hprune : (ofRecords records).graph.prune (ofRecords records).roots = .ok (pruned, graph) :=
      hsurviving
    have hfresh {b : Analyzer} {u : FileTree} {T : Table} (hb : b.Over u T C) :
        b.markings.Mirrors T :=
      fun key r hknown => by simp [hb.fresh key] at hknown
    have hdefinitions : ∀ name ∈ definitions nodes,
        a'.markings.readRow M' name = a.markings.readRow M name := by
      intro name hname
      obtain ⟨node, hnode, rfl⟩ := List.mem_map.1 hname
      exact readRow_eq_of_get? hpaired.markings (h'.markingsFormat.trans h.markingsFormat.symm)
        (hrows records pruned graph hcallRows hsurviving node.1 node.2 ((mem_named hnodes).1 hnode))
    obtain ⟨u, u', r, hu, hu', -, hknown⟩ :=
      lookUpAll_congr hmarkings hmarkings' (hfresh h) (hfresh h') hdefinitions
    cases r with
    | error e =>
      simp only [view, hrecords, hrecords', hprune, hnodes, hu, hu']
      exact ⟨⟨rfl, rfl⟩, by simp⟩
    | ok =>
      -- what has been looked up is all that the entry points and the walks depend on
      have hagree : graph.Agree (cachedMarkings u) (cachedMarkings u') := by
        intro k name hname
        have hmem : definitionName name ∈ definitions nodes :=
          List.mem_map.2 ⟨(k, name), (mem_named hnodes).2 hname, rfl⟩
        obtain ⟨r, hr, hr'⟩ := hknown rfl _ hmem
        rw [cachedMarkings, cachedMarkings, lookup?_of_known hr, lookup?_of_known hr']
      have hchosen := entriesAmong_congr hagree hnodes
      simp only [view, hrecords, hrecords', hprune, hnodes, hu, hu', hchosen]
      refine ⟨⟨rfl, rfl⟩, ?_⟩
      rintro v ⟨⟩
      exact hagree
  · rw [hread] at hrecords hrecords'
    simp only [view, hrecords, hrecords']
    exact ⟨⟨rfl, rfl⟩, by simp⟩

/-- They are audited alike. -/
theorem audit_alike (h : a.Over t M C) (h' : a'.Over t' M' C) (hpaired : Paired a a')
    (hrows : RowsAgree C M M') : Alike (a.audit t) (a'.audit t') := by
  obtain ⟨hview, hagree⟩ := view_alike h h' hpaired hrows
  cases hresult : (a.view t).result with
  | error e =>
    have hresult' := hview.result.trans hresult
    simp only [Analyzer.audit, hresult, hresult']
    exact ⟨hview.journal, rfl⟩
  | ok v =>
    have hresult' := hview.result.trans hresult
    have haudit := audit_congr (hagree v hresult) a.scope v.entries
    simp only [Analyzer.audit, hresult, hresult', hpaired.scope, haudit, hview.journal]
    cases v.graph.audit (cachedMarkings (a.view t).analyzer.markings) a.scope v.entries with
    | error e => exact ⟨rfl, rfl⟩
    | ok report => exact ⟨rfl, rfl⟩

/-- They are drawn alike. -/
theorem dot_alike (h : a.Over t M C) (h' : a'.Over t' M' C) (hpaired : Paired a a')
    (hrows : RowsAgree C M M') : Alike (a.dot t) (a'.dot t') := by
  obtain ⟨hview, -⟩ := view_alike h h' hpaired hrows
  simp only [Analyzer.dot, hview.result]
  cases (a.view t).result with
  | error e => exact ⟨hview.journal, rfl⟩
  | ok v => exact ⟨hview.journal, rfl⟩

/-- An analyzer reads the two tables of its depstore. -/
theorem paths_of_openAt {depstore : Path} {scope : VisitScope} {w w' : World}
    (h : (Analyzer.openAt depstore scope).run.run w = (.ok a, w')) :
    a.markings.path = depstore.child "marking" ∧ a.calls.path = depstore.child "calledge" := by
  unfold Analyzer.openAt at h
  obtain ⟨markings, w₁, hmarkings, h⟩ := Action.run_bind_eq_ok h
  obtain ⟨calls, w₂, hcalls, h⟩ := Action.run_bind_eq_ok h
  obtain ⟨-, -, -, -, -, session, rfl⟩ := openAt_eq_ok hmarkings
  obtain ⟨-, -, -, -, -, session', rfl⟩ := openAt_eq_ok hcalls
  obtain rfl := Except.ok.inj (Prod.mk.inj h).1
  exact ⟨rfl, rfl⟩

/-- **Only the definitions of surviving nodes matter.** If two sources of markings agree on the
definitions behind the nodes of the pruned graph, call records have the same analysis with both,
that is the same entry points and the same report, in either scope; also if the entry points are
given by name. If two depstores hold the same calls and their marking rows agree on these
definitions, all that an analyzer says of them is the same, including its log. In particular, a
marking under a name with an opening bracket makes no difference, whatever it is and whether or not
its row can be read. -/
theorem only_definitions_of_nodes_matter (records : List (Text × List CallEdge))
    (scope : VisitScope) (markings markings' : MarkingSource) (depstore : Path) (w w' : World)
    (M M' C : Table) :
    ((∀ pruned graph, surviving records = .ok (pruned, graph) → graph.Agree markings markings') →
      (∃ a, Analysis.ofRecords records markings scope none = .ok a ∧
        Analysis.ofRecords records markings' scope none = .ok a) ∧
      ∀ names, Analysis.ofRecords records markings' scope (some names) =
        Analysis.ofRecords records markings scope (some names)) ∧
    (Holds depstore w.files M C → Holds depstore w'.files M' C → RowsAgree C M M' →
      ∃ a u a' u', (Analyzer.openAt depstore scope).run.run w = (.ok a, u) ∧
        (Analyzer.openAt depstore scope).run.run w' = (.ok a', u') ∧
        Alike (a.view u.files) (a'.view u'.files) ∧ Alike (a.audit u.files) (a'.audit u'.files) ∧
        Alike (a.dot u.files) (a'.dot u'.files)) ∧
    ((∀ name, openBracket ∉ name → markings' name = markings name) →
      ∀ graph : CallGraph, graph.Agree markings markings') ∧
    ((∀ name, openBracket ∉ name → M'.get? (.text name) = M.get? (.text name)) →
      RowsAgree C M M') := by
  refine ⟨fun hagree => ⟨?_, fun names => Analysis.ofRecords_congr hagree scope (some names)⟩, ?_,
    agree_of_openBracket, fun hrows => rowsAgree_of_openBracket hrows C⟩
  · obtain ⟨pruned, graph, entries, report, hsurviving, -, -, hentries, hreport⟩ :=
      Analysis.exists_stages records markings scope
    have hstages := Analysis.ofRecords_eq_ok hsurviving hentries hreport
    exact ⟨_, hstages, (Analysis.ofRecords_congr hagree scope none).trans hstages⟩
  · intro hholds hholds' hrows
    obtain ⟨a, u, hopen, hscope, hover⟩ := exists_openAt hholds scope
    obtain ⟨a', u', hopen', hscope', hover'⟩ := exists_openAt hholds' scope
    obtain ⟨hmarkings, hcalls⟩ := paths_of_openAt hopen
    obtain ⟨hmarkings', hcalls'⟩ := paths_of_openAt hopen'
    have hpaired : Paired a a' :=
      ⟨hscope'.trans hscope.symm, hmarkings'.trans hmarkings.symm, hcalls'.trans hcalls.symm⟩
    exact ⟨a, u, a', u', hopen, hopen', (view_alike hover hover' hpaired hrows).1,
      audit_alike hover hover' hpaired hrows, dot_alike hover hover' hpaired hrows⟩

/-- A name with type arguments. -/
def instanceName : Text := ['s', '<', '>']

theorem ne_instanceName {name : Text} (h : openBracket ∉ name) : name ≠ instanceName := by
  rintro rfl
  exact h (by decide)

/-- The markings of `Ingest.signingMarkings` and another one under this name. -/
def instanceMarkings : List (Text × MarkedItem) :=
  (instanceName, { marking := { audited := some ['g'] },
                   location := { file := ['f'], line := 5 } }) :: signingMarkings

/-- A row under this name that holds no record. -/
def instanceRows : Table := ({} : Table).put (.text instanceName) (.int 7)

/-- Another marking under a name with type arguments, and a row under it that holds no record, make
no difference. -/
theorem only_definitions_of_nodes_matter_instance :
    (∃ a, Analysis.ofRecords signingCalls (sourceOf signingMarkings) .run none = .ok a ∧
      Analysis.ofRecords signingCalls (sourceOf instanceMarkings) .run none = .ok a ∧
      a.report.unaudited.length = 1) ∧
    ∃ a u a' u', (Analyzer.openAt (pathOf "d") .run).run.run { files := filesWith {} oneCall } =
      (.ok a, u) ∧
      (Analyzer.openAt (pathOf "d") .run).run.run { files := filesWith instanceRows oneCall } =
        (.ok a', u') ∧
      Alike (a.audit u.files) (a'.audit u'.files) := by
  obtain ⟨hrecords, hstores, hsources, htables⟩ :=
    only_definitions_of_nodes_matter signingCalls .run (sourceOf signingMarkings)
      (sourceOf instanceMarkings) (pathOf "d") { files := filesWith {} oneCall }
      { files := filesWith instanceRows oneCall } {} instanceRows oneCall
  constructor
  · have hagree := hsources fun name h => by
      rw [sourceOf, instanceMarkings, Json.lookup?, if_neg (ne_instanceName h).symm, sourceOf]
    obtain ⟨⟨a, ha, ha'⟩, -⟩ := hrecords fun _ graph _ => hagree graph
    have hcount : (Analysis.ofRecords signingCalls (sourceOf signingMarkings) .run none).map
        (fun a => a.report.unaudited.length) = .ok 1 := by cbv
    rw [ha] at hcount
    exact ⟨a, ha, ha', Except.ok.inj hcount⟩
  · have hrows := htables fun name h => by
      rw [instanceRows, Table.get?_put, if_neg (by simpa using ne_instanceName h)]
    obtain ⟨a, u, a', u', hopen, hopen', -, haudit, -⟩ :=
      hstores ⟨by decide +kernel, by decide +kernel⟩ ⟨by decide +kernel, by decide +kernel⟩ hrows
    exact ⟨a, u, a', u', hopen, hopen', haudit⟩

end Analyzer

end CallAudit
