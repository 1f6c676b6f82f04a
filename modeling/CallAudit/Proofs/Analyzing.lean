import CallAudit.Analyzer
import CallAudit.Proofs.Ingesting
import CallAudit.Proofs.MarkingSources
import CallAudit.Proofs.StableReads

/-!
# Analysing the tables of a depstore

An analyzer that has been opened reads both tables of its depstore (`Analyzer.exists_openAt`). It
first reads all call rows and then the marking rows of the definitions behind the surviving nodes,
up to the first row that cannot be read (`Analyzer.view_cases`), and reports that row as a corrupt
record or, if it holds a text that is not UTF-8, its store as unavailable. What it has read it
remembers, also that there is no row. So the walks of the audit, which ask for the same definitions,
are answered from memory and do not come upon a row that cannot be read
(`Analyzer.corruption_is_reported`).
-/

namespace CallAudit

open FileTree

namespace Store

variable {α : Type} {d : Path} {D : Place} {name other : Text} {format : RecordFormat α}
  {T : Table} {n : Nat}
variable {t t' : FileTree} {w : World} {s : Store α}

/-! ## Opening two stores -/

/-- A store is opened in the same way when the directory around it is there already. -/
theorem run_openAt_of_makeDirectories (hname : IsName name)
    (hmake : w.files.makeDirectories d.start d.parts = (t, none))
    (h : found w.files (d.child name) = some T) (format : RecordFormat α) :
    (openAt (d.child name) format).run.run w =
      (openAt (d.child name) format).run.run { w with files := t } := by
  unfold found at h
  rcases hchild : w.files.makeDirectories (d.child name).start (d.child name).parts with
    ⟨t', _ | fault⟩
  · obtain ⟨above, habove, hfrom⟩ := makeDirectories_child hname hchild
    obtain rfl : above = t := (Prod.mk.inj (habove.symm.trans hmake)).1
    rw [run_openAt, run_openAt]
    simp only [hchild, hfrom]
  · simp [hchild] at h

/-- What happens to one table does not change the content of another. -/
theorem tableContent_of_touches (h : Touches t t' D name) (hne : other ≠ name) (hD : Leads t d D)
    (hother : IsName other) (hcontent : tableContent t (d.child other) = .ok (.table T n)) :
    tableContent t' (d.child other) = .ok (.table T n) := by
  obtain ⟨-, F, hplace, -⟩ := tableContent_eq_table.1 hcontent
  obtain ⟨P, hP, -⟩ := leads_of_place_child isName_db hplace
  obtain ⟨D', hD', rfl⟩ := leads_of_place_child hother hP.place
  obtain rfl := hD.unique hD'
  have hnode := h.other hne [("db" : Text)]
  rw [tableContent_congr hP (hP.of_keeps h.keeps) (by simpa using hnode)]
  exact hcontent

/-! ## Looking up -/

/-- What a store knows is what the rows say. -/
def Mirrors (s : Store α) (T : Table) : Prop :=
  ∀ key r, s.known key = some r → s.readRow T key = .ok r

theorem Mirrors.answer_eq (h : s.Mirrors T) (key : Text) : s.answer T key = s.readRow T key := by
  unfold answer
  cases hknown : s.known key with
  | none => rfl
  | some r => exact (h key r hknown).symm

/-- A store after look-ups: it is the same one, it knows what it knew, and it knows nothing else
than what the rows say. -/
structure After (t : FileTree) (T : Table) (n : Nat) (s s' : Store α) : Prop where
  on : (⟨t, s'⟩ : Access α).On T n
  path : s'.path = s.path
  format : s'.format = s.format
  mirrors : s'.Mirrors T
  kept : ∀ key r, s.known key = some r → s'.known key = some r

theorem After.trans {s' s'' : Store α} (h : After t T n s s') (h' : After t T n s' s'') :
    After t T n s s'' where
  on := h'.on
  path := h'.path.trans h.path
  format := h'.format.trans h.format
  mirrors := h'.mirrors
  kept key r hknown := h'.kept key r (h.kept key r hknown)

theorem After.readRow_eq {s' : Store α} (h : After t T n s s') (key : Text) :
    s'.readRow T key = s.readRow T key :=
  Access.readRow_congr h.path h.format T key

/-- A look-up gives what the row says and remembers it. -/
theorem getIn_eq_readRow (hon : (⟨t, s⟩ : Access α).On T n) (hmirrors : s.Mirrors T) (key : Text) :
    ∃ s', s.getIn t key = (s', s.readRow T key) ∧ After t T n s s' ∧
      ∀ r, s.readRow T key = .ok r → s'.known key = some r := by
  obtain ⟨⟨files, s'⟩, hperform, hon', hsame, hok, herror⟩ := Access.perform_get hon key
  rcases hget : s.getIn t key with ⟨s₁, answer⟩
  simp only [Access.perform, hget] at hperform
  obtain ⟨haccess, hanswer⟩ := Prod.mk.inj hperform
  obtain ⟨rfl, rfl⟩ := Access.mk.inj haccess
  have hrow := hmirrors.answer_eq key
  simp only [hrow] at hanswer hok herror
  obtain rfl : answer = s.readRow T key := by
    cases answer <;> cases hread : s.readRow T key <;> simp_all [Except.map]
  refine ⟨s₁, rfl, ⟨hon', hsame.path, hsame.format, ?_, ?_⟩,
    fun r hr => by rw [hok r hr, if_pos rfl]⟩
  · intro other r hother
    rw [Access.readRow_congr hsame.path hsame.format]
    cases hread : s.readRow T key with
    | error e =>
      obtain ⟨hcache, hmisses⟩ := herror e hread
      rw [Access.known_congr hcache hmisses] at hother
      exact hmirrors other r hother
    | ok r' =>
      rw [hok r' hread] at hother
      split at hother
      · next heq => rw [heq, hread, Option.some.inj hother]
      · exact hmirrors other r hother
  · intro other r hother
    cases hread : s.readRow T key with
    | error e =>
      obtain ⟨hcache, hmisses⟩ := herror e hread
      rw [Access.known_congr hcache hmisses]
      exact hother
    | ok r' =>
      rw [hok r' hread]
      split
      · next heq =>
        have hread' := hmirrors other r hother
        rw [heq, hread] at hread'
        rw [Except.ok.inj hread']
      · exact hother

/-- What is known is answered from memory, whatever the files are. -/
theorem getIn_of_known {key : Text} {r : Option α} (h : s.known key = some r) (t : FileTree) :
    s.getIn t key = (s, .ok r) := by
  have hknown : s.isKnown key = true := by rw [isKnown_eq, h]; rfl
  rw [getIn, hknown, Bool.true_or, if_pos rfl, get_of_known h]

theorem lookup?_of_known {key : Text} {r : Option α} (h : s.known key = some r) :
    Json.lookup? key s.cache = r := by
  unfold known at h
  cases hcache : Json.lookup? key s.cache with
  | some a => simpa [hcache] using h
  | none =>
    simp only [hcache] at h
    split at h
    · exact Option.some.inj h
    · cases h

/-- The record in the row of a key, if there is a row. -/
def readAt (format : RecordFormat α) (T : Table) (key : Text) : Except CellFault (Option α) :=
  match T.get? (.text key) with
  | none => .ok none
  | some cell => (decodeCell format cell).map some

theorem readAt_eq_error {key : Text} {fault : CellFault} :
    readAt format T key = .error fault ↔
      ∃ cell, T.get? (.text key) = some cell ∧ decodeCell format cell = .error fault := by
  unfold readAt
  cases T.get? (.text key) with
  | none => simp
  | some cell => cases hcell : decodeCell format cell <;> simp [hcell, Except.map]

/-- Under a key of scalar values, only the row itself can be at fault. -/
theorem readRow_eq_readAt {key : Text} (hkey : Text.isScalar key = true) (s : Store α) (T : Table) :
    s.readRow T key = (readAt s.format T key).mapError (s.cellFailure key) := by
  rw [readRow, Utf8.encode_eq_ok.2 ⟨hkey, rfl⟩, readAt]
  cases T.get? (.text key) with
  | none => rfl
  | some cell =>
    simp only [decode]
    cases decodeCell s.format cell <;> rfl

end Store

namespace Analyzer

open Store Ingest CallGraph

variable {depstore : Path} {scope : VisitScope} {w : World} {t : FileTree} {M C : Table}
  {a : Analyzer} {n : Nat}

/-- Looking up several definitions: all rows can be read, or the first fault among them is
reported. -/
theorem lookUpAll_cases {s : Store MarkedItem} (hon : (⟨t, s⟩ : Access MarkedItem).On M n)
    (hmirrors : s.Mirrors M) {names : List Text}
    (hnames : ∀ name ∈ names, Text.isScalar name = true) :
    ∃ s', After t M n s s' ∧
      ((lookUpAll t s names = (s', .ok ()) ∧ ∀ name ∈ names, ∃ r, s'.known name = some r) ∨
        ∃ name fault, names.mapM (readAt s.format M) = .error fault ∧
          lookUpAll t s names = (s', .error (s.cellFailure name fault))) := by
  induction names generalizing s with
  | nil => exact ⟨s, ⟨hon, rfl, rfl, hmirrors, fun _ _ h => h⟩, .inl ⟨rfl, by simp⟩⟩
  | cons name rest ih =>
    obtain ⟨hname, hrest⟩ := List.forall_mem_cons.1 hnames
    obtain ⟨s₁, hget, hafter, hknown⟩ := getIn_eq_readRow hon hmirrors name
    rw [readRow_eq_readAt hname] at hget hknown
    rw [lookUpAll, hget, List.mapM_cons]
    cases hread : readAt s.format M name with
    | error fault => exact ⟨s₁, hafter, .inr ⟨name, fault, rfl, rfl⟩⟩
    | ok r =>
      rw [hread] at hknown
      obtain ⟨s₂, hafter₂, hothers⟩ := ih hafter.on hafter.mirrors hrest
      refine ⟨s₂, hafter.trans hafter₂, ?_⟩
      rcases hothers with ⟨hall, hothers⟩ | ⟨bad, fault, hfault, hall⟩
      · refine .inl ⟨hall, List.forall_mem_cons.2 ⟨⟨r, ?_⟩, hothers⟩⟩
        exact hafter₂.kept name r (hknown r rfl)
      · rw [hafter.format] at hfault
        rw [Access.cellFailure_congr hafter.path] at hall
        exact .inr ⟨bad, fault, by rw [hfault]; rfl, hall⟩

/-! ## Opened analyzers -/

/-- An analyzer reads these tables and has looked up nothing yet. -/
structure Over (a : Analyzer) (t : FileTree) (M C : Table) : Prop where
  markings : ∃ n, (⟨t, a.markings⟩ : Access MarkedItem).On M n
  calls : ∃ n, (⟨t, a.calls⟩ : Access (List CallEdge)).On C n
  markingsFormat : a.markings.format = MarkedItem.format
  callsFormat : a.calls.format = CallEdge.format.list
  fresh : ∀ key, a.markings.known key = none

/-- A depstore whose tables can be found can be opened. -/
theorem exists_openAt (h : Holds depstore w.files M C) (scope : VisitScope) :
    ∃ a w', (Analyzer.openAt depstore scope).run.run w = (.ok a, w') ∧ a.scope = scope ∧
      a.Over w'.files M C := by
  obtain ⟨t, D, hmake, hD⟩ := leads_of_found isName_marking h.markings
  have hmarkings := found_of_makeDirectories isName_marking hmake h.markings
  have hcalls := found_of_makeDirectories isName_calledge hmake h.calls
  -- the first store is opened as if the depstore had been there before
  have hrun := run_openAt_of_makeDirectories isName_marking hmake h.markings MarkedItem.format
  obtain ⟨s, w₁, hopen⟩ := openAt_of_found (w := { w with files := t }) hmarkings MarkedItem.format
  have htouches := openAt_frame (w := { w with files := t }) hD isName_marking hopen
  obtain ⟨M', n, hM', hreads, -, session, rfl⟩ := openAt_eq_ok hopen
  obtain rfl : M = M' := Option.some.inj (hmarkings.symm.trans hM')
  have hD₁ := hD.of_keeps htouches.keeps
  have hcalls₁ : found w₁.files (depstore.child "calledge") = some C :=
    (found_of_touches htouches (by decide) hD isName_calledge).trans hcalls
  -- and the second one leaves the table of the first one alone
  obtain ⟨s', w₂, hopen'⟩ := openAt_of_found hcalls₁ CallEdge.format.list
  have htouches' := openAt_frame hD₁ isName_calledge hopen'
  obtain ⟨C', n', hC', hreads', -, session', rfl⟩ := openAt_eq_ok hopen'
  obtain rfl : C = C' := Option.some.inj (hcalls₁.symm.trans hC')
  have hcontent := tableContent_of_touches htouches' (by decide) hD₁ isName_marking hreads.content
  refine ⟨⟨scope, { path := depstore.child "marking", format := MarkedItem.format, session },
      { path := depstore.child "calledge", format := CallEdge.format.list, session := session' }⟩,
        w₂, ?_, rfl,
    ⟨n, ⟨hcontent, hreads.session⟩, rfl⟩, ⟨n', hreads', rfl⟩, rfl, rfl, fun key => rfl⟩
  unfold Analyzer.openAt
  rw [Action.run_bind_ok (x := openMarkings depstore) (hrun.trans hopen),
    Action.run_bind_ok (x := openCalls depstore) hopen']
  rfl

/-- The names in call rows consist of scalar values, and so do the names of the surviving nodes. -/
theorem isScalar_of_readRows {records : List (Text × List CallEdge)}
    (h : readRows CallEdge.format.list C = .ok records)
    {pruned : PruneResult} {graph : CallGraph}
    (hsurviving : surviving records = .ok (pruned, graph)) {k : Handle}
    {name : Text} (hname : graph.nameOf k = .ok name) : Text.isScalar name = true := by
  obtain ⟨record, hrecord, hmem⟩ := List.mem_flatMap.1 (mem_namesIn_of_surviving hsurviving hname)
  obtain ⟨row, hrow, hkey, hedges⟩ := mem_of_readRows h hrecord
  rcases List.mem_cons.1 hmem with rfl | hmem
  · exact TableKey.isScalar_of_read hkey
  · obtain ⟨e, he, rfl⟩ := List.mem_map.1 hmem
    obtain ⟨v, hv, hcheck⟩ := readable_of_decodeCell hedges
    obtain ⟨u, hu, hedge⟩ := Checked.readable_of_list hv hcheck e he
    exact (CallEdge.legible_of_check hu hedge).isScalar_calleeName

/-! ## Views -/

/-- A view has succeeded: every definition behind a node has been looked up. -/
structure Viewed (a : Analyzer) (t : FileTree) (M : Table) (graph : CallGraph)
    (nodes : List (Handle × Text)) : Prop where
  result : (a.view t).result =
    .ok { graph, entries := entriesAmong (cachedMarkings (a.view t).analyzer.markings) nodes }
  mirrors : (a.view t).analyzer.markings.Mirrors M
  format : (a.view t).analyzer.markings.format = MarkedItem.format
  known : ∀ k name, graph.nameOf k = .ok name →
    ∃ r, (a.view t).analyzer.markings.known (definitionName name) = some r

/-- A view reports the first fault among the call rows, or else the first among the marking rows of
the surviving nodes, or else it succeeds. -/
theorem view_cases (h : a.Over t M C) :
    (∃ key fault, readRows CallEdge.format.list C = .error fault ∧
      (a.view t).result = .error (a.calls.cellFailure key fault)) ∨
    ∃ records pruned graph nodes, readRows CallEdge.format.list C = .ok records ∧
      surviving records = .ok (pruned, graph) ∧ graph.Named ∧ graph.named = .ok nodes ∧
      ((∃ name fault, (definitions nodes).mapM (readAt MarkedItem.format M) = .error fault ∧
          (a.view t).result = .error (a.markings.cellFailure name fault)) ∨
        Viewed a t M graph nodes) := by
  obtain ⟨n, hcalls⟩ := h.calls
  obtain ⟨m, hmarkings⟩ := h.markings
  obtain ⟨session, -, hrecords⟩ := Access.recordsIn_eq hcalls
  have hrows := Access.recordsOf_cases a.calls C
  rw [h.callsFormat] at hrows
  rcases hrows with ⟨records, hrows, hread⟩ | ⟨key, fault, hrows, hread⟩
  · rw [hrows] at hrecords
    obtain ⟨pruned, graph, hsurviving, hnamed, -⟩ := named_surviving records
    obtain ⟨entries, hentries⟩ := hnamed.entryPoints fun _ => none
    obtain ⟨nodes, hnodes, -⟩ := entryPoints_eq_ok.1 hentries
    -- stored call rows hold scalar values only, so that each definition can be looked up
    have hscalar : ∀ name ∈ definitions nodes, Text.isScalar name = true := by
      intro name hname
      obtain ⟨⟨k, full⟩, hnode, rfl⟩ := List.mem_map.1 hname
      exact Text.isScalar_definitionName
        (isScalar_of_readRows hread hsurviving ((mem_named hnodes).1 hnode))
    -- nothing is remembered yet, so in the end all that is remembered has been read from a row
    have hmirrors : a.markings.Mirrors M := fun key r hknown => by simp [h.fresh key] at hknown
    obtain ⟨s', hafter, hlookups⟩ := lookUpAll_cases hmarkings hmirrors hscalar
    have hprune : (ofRecords records).graph.prune (ofRecords records).roots = .ok (pruned, graph) :=
      hsurviving
    refine .inr ⟨records, pruned, graph, nodes, hread, hsurviving, hnamed, hnodes, ?_⟩
    rcases hlookups with ⟨hall, hknown⟩ | ⟨name, fault, hfault, hall⟩
    · have hview : (a.view t).analyzer.markings = s' ∧
          (a.view t).result = .ok { graph, entries := entriesAmong (cachedMarkings s') nodes } := by
        simp only [view, hrecords, hprune, hnodes, hall, and_self]
      refine .inr ⟨hview.1 ▸ hview.2, hview.1 ▸ hafter.mirrors,
        hview.1 ▸ hafter.format.trans h.markingsFormat, ?_⟩
      intro k name hname
      rw [hview.1]
      exact hknown _ (List.mem_map.2 ⟨(k, name), (mem_named hnodes).2 hname, rfl⟩)
    · rw [h.markingsFormat] at hfault
      refine .inl ⟨name, fault, hfault, ?_⟩
      simp only [view, hrecords, hprune, hnodes, hall]
  · rw [hrows] at hrecords
    refine .inl ⟨key, fault, hread, ?_⟩
    simp only [view, hrecords]

/-- After a view that has failed, the audit fails alike. -/
theorem audit_of_view {e : Failure} (h : (a.view t).result = .error e) :
    (a.audit t).result = .error e := by
  simp only [audit, h]

/-! ## Rows that matter -/

/-- A row that cannot be read matters to an audit of these tables: it is a call row, or all call
rows can be read and it is the marking row of the definition behind a surviving node. -/
inductive FaultMatters (M C : Table) : Prop
  | call (row : TableKey × Cell) (hrow : row ∈ C.rows) (fault : CellFault)
      (hfault : readEntry CallEdge.format.list row = .error fault)
  | marking (records : List (Text × List CallEdge)) (pruned : PruneResult) (graph : CallGraph)
      (hread : readRows CallEdge.format.list C = .ok records)
      (hsurviving : surviving records = .ok (pruned, graph)) (k : Handle) (name : Text)
        (cell : Cell)
      (hname : graph.nameOf k = .ok name)
      (hcell : M.get? (.text (definitionName name)) = some cell) (fault : CellFault)
      (hfault : decodeCell MarkedItem.format cell = .error fault)

/-- The first fault that an audit of these tables comes upon. Call rows are read in the order of
their keys, and then marking rows in the order of the surviving nodes. -/
inductive FirstFault (M C : Table) (fault : CellFault) : Prop
  | call (h : readRows CallEdge.format.list C = .error fault)
  | marking (records : List (Text × List CallEdge)) (pruned : PruneResult) (graph : CallGraph)
      (nodes : List (Handle × Text)) (hread : readRows CallEdge.format.list C = .ok records)
      (hsurviving : surviving records = .ok (pruned, graph)) (hnodes : graph.named = .ok nodes)
      (h : (definitions nodes).mapM (readAt MarkedItem.format M) = .error fault)

/-- Every text in a table is UTF-8. -/
def IsUtf8 (T : Table) : Prop :=
  ∀ row ∈ T.rows, (∃ key, row.1.read = .ok key) ∧
    ∀ bytes, row.2 = .text bytes → ∃ text, Utf8.decode bytes = .ok text

/-- What is found unreadable in a table is a text that is not UTF-8. -/
theorem IsUtf8.decodeCell_ne {α : Type} {T : Table} (h : IsUtf8 T) {row : TableKey × Cell}
    (hrow : row ∈ T.rows) (format : RecordFormat α) (u : UnreadableText) :
    decodeCell format row.2 ≠ .error (.unreadable u) := by
  intro hcell
  obtain ⟨bytes, e, hbytes, hdecode, -⟩ := decodeCell_eq_unreadable.1 hcell
  obtain ⟨text, htext⟩ := (h row hrow).2 bytes hbytes
  cases hdecode.symm.trans htext

/-- If all texts are UTF-8, the first fault is that of a record. -/
theorem FirstFault.refused {fault : CellFault} (h : FirstFault M C fault) (hM : IsUtf8 M)
    (hC : IsUtf8 C) : ∃ reason, fault = .refused reason := by
  cases fault with
  | refused reason => exact ⟨reason, rfl⟩
  | unreadable u =>
    exfalso
    cases h with
    | call h =>
      obtain ⟨before, row, after, hrows, -, hrow⟩ := mapM_eq_error.1 h
      have hmem : row ∈ C.rows := by simp [hrows]
      obtain ⟨key, hkey⟩ := (hC row hmem).1
      rw [readEntry, hkey] at hrow
      cases hcell : decodeCell CallEdge.format.list row.2 with
      | ok edges => simp [hcell, Except.map] at hrow
      | error fault =>
        simp only [hcell, Except.map, Except.error.injEq] at hrow
        exact hC.decodeCell_ne hmem _ u (hrow ▸ hcell)
    | marking records pruned graph nodes _ _ _ h =>
      obtain ⟨before, name, after, -, -, hname⟩ := mapM_eq_error.1 h
      obtain ⟨cell, hcell, hfault⟩ := readAt_eq_error.1 hname
      exact hM.decodeCell_ne (Table.get?_eq_some_iff.1 hcell) _ u hfault

/-- There is a first fault if and only if one matters. -/
theorem exists_firstFault_iff : (∃ fault, FirstFault M C fault) ↔ FaultMatters M C := by
  constructor
  · rintro ⟨fault, h | ⟨records, pruned, graph, nodes, hread, hsurviving, hnodes, h⟩⟩
    · obtain ⟨before, row, after, hrows, -, hrow⟩ := mapM_eq_error.1 h
      exact .call row (by simp [hrows]) fault hrow
    · obtain ⟨before, name, after, hnames, -, hname⟩ := mapM_eq_error.1 h
      have hmem : name ∈ definitions nodes := by simp [hnames]
      obtain ⟨⟨k, full⟩, hnode, rfl⟩ := List.mem_map.1 hmem
      obtain ⟨cell, hcell, hfault⟩ := readAt_eq_error.1 hname
      exact .marking records pruned graph hread hsurviving k full cell ((mem_named hnodes).1 hnode)
        hcell fault hfault
  · rintro (⟨row, hrow, fault, hfault⟩ |
      ⟨records, pruned, graph, hread, hsurviving, k, name, cell, hname, hcell, fault, hfault⟩)
    · cases hread : readRows CallEdge.format.list C with
      | error first => exact ⟨first, .call hread⟩
      | ok records =>
        obtain ⟨record, hrecord⟩ := ok_of_mapM hread row hrow
        cases hrecord.symm.trans hfault
    · obtain ⟨pruned', graph', hsurviving', hnamed, -⟩ := named_surviving records
      obtain ⟨rfl, rfl⟩ := Prod.mk.inj (Except.ok.inj (hsurviving'.symm.trans hsurviving))
      obtain ⟨entries, hentries⟩ := hnamed.entryPoints fun _ => none
      obtain ⟨nodes, hnodes, -⟩ := entryPoints_eq_ok.1 hentries
      have hmem : definitionName name ∈ definitions nodes :=
        List.mem_map.2 ⟨(k, name), (mem_named hnodes).2 hname, rfl⟩
      cases hread' : (definitions nodes).mapM (readAt MarkedItem.format M) with
      | error first =>
        exact ⟨first, .marking records _ _ nodes hread hsurviving hnodes hread'⟩
      | ok items =>
        obtain ⟨item, hitem⟩ := ok_of_mapM hread' _ hmem
        cases hitem.symm.trans (readAt_eq_error.2 ⟨cell, hcell, hfault⟩)

/-- The failure that a fault in a row brings about. -/
inductive Brings : CellFault → Failure → Prop
  | refused (table key : Text) {reason : RefusalReason} :
      Brings (.refused reason) (.corruptRecord table key reason)
  | unreadable (path : Path) {text : UnreadableText} :
      Brings (.unreadable text) (.storeUnavailable path text.message)

theorem brings_cellFailure {α : Type} (s : Store α) (key : Text) (fault : CellFault) :
    Brings fault (s.cellFailure key fault) := by
  cases fault with
  | refused reason => exact .refused s.tableName key
  | unreadable text => exact .unreadable s.path

/-- An audit fails with the first fault, or there is none and all that it needs has been read. -/
theorem audit_cases (h : a.Over t M C) :
    (∃ fault e, FirstFault M C fault ∧ Brings fault e ∧ (a.view t).result = .error e ∧
      (a.audit t).result = .error e) ∨
    ∃ graph nodes, graph.Named ∧ graph.named = .ok nodes ∧ Viewed a t M graph nodes ∧
      ¬ ∃ fault, FirstFault M C fault := by
  rcases view_cases h with ⟨key, fault, hread, hview⟩ |
    ⟨records, pruned, graph, nodes, hread, hsurviving, hnamed, hnodes,
      ⟨name, fault, hrows, hview⟩ | hviewed⟩
  · exact .inl ⟨fault, _, .call hread, brings_cellFailure _ key fault, hview, audit_of_view hview⟩
  · exact .inl ⟨fault, _, .marking records pruned graph nodes hread hsurviving hnodes hrows,
      brings_cellFailure _ name fault, hview, audit_of_view hview⟩
  · refine .inr ⟨graph, nodes, hnamed, hnodes, hviewed, ?_⟩
    rw [exists_firstFault_iff]
    rintro (⟨row, hrow, fault, hfault⟩ |
      ⟨records', pruned', graph', hread', hsurviving', k, name, cell, hname, hcell, fault, hfault⟩)
    · obtain ⟨record, hrecord⟩ := ok_of_mapM hread row hrow
      cases hrecord.symm.trans hfault
    · obtain rfl : records = records' := Except.ok.inj (hread.symm.trans hread')
      obtain ⟨-, rfl⟩ := Prod.mk.inj (Except.ok.inj (hsurviving.symm.trans hsurviving'))
      -- what is known of the name has been read from its row
      obtain ⟨r, hr⟩ := hviewed.known k name hname
      have hrow := hviewed.mirrors _ r hr
      rw [readRow_eq_readAt (Text.isScalar_definitionName
        (isScalar_of_readRows hread hsurviving hname)),
        hviewed.format, readAt_eq_error.2 ⟨cell, hcell, hfault⟩] at hrow
      cases hrow

/-- After a view that has succeeded, the audit does. -/
theorem Viewed.audit {graph : CallGraph} {nodes : List (Handle × Text)}
    (h : Viewed a t M graph nodes) (hnamed : graph.Named) (hnodes : graph.named = .ok nodes) :
    ∃ report, graph.audit (cachedMarkings (a.view t).analyzer.markings) a.scope
        (entriesAmong (cachedMarkings (a.view t).analyzer.markings) nodes) = .ok report ∧
      (a.audit t).result = .ok report := by
  have hentries : graph.entryPoints (cachedMarkings (a.view t).analyzer.markings) =
      .ok (entriesAmong (cachedMarkings (a.view t).analyzer.markings) nodes) :=
    entryPoints_eq_ok.2 ⟨nodes, hnodes, rfl⟩
  obtain ⟨report, hreport⟩ := Traversal.run_named (t := { scope := a.scope }) hnamed
    (cachedMarkings (a.view t).analyzer.markings) rfl (mem_handles_of_entryPoints hentries)
  have haudit : graph.audit (cachedMarkings (a.view t).analyzer.markings) a.scope
      (entriesAmong (cachedMarkings (a.view t).analyzer.markings) nodes) = .ok report := hreport
  refine ⟨report, haudit, ?_⟩
  simp only [Analyzer.audit, h.result, haudit]

/-- Markings that are looked up on demand, each time in the files of that moment. Where a look-up
fails, anything may be the marking. -/
def onDemand (s : Store MarkedItem) (later : Text → FileTree) (fallback : MarkingSource) :
    MarkingSource := fun name =>
  match (s.getIn (later name) name).2 with
  | .ok item => item.map (·.marking)
  | .error _ => fallback name

/-- On the definitions behind the nodes, looking up on demand is looking into the cache. -/
theorem Viewed.agree {graph : CallGraph} {nodes : List (Handle × Text)}
    (h : Viewed a t M graph nodes) (later : Text → FileTree) (fallback : MarkingSource) :
    graph.Agree (cachedMarkings (a.view t).analyzer.markings)
      (onDemand (a.view t).analyzer.markings later fallback) := by
  intro k name hname
  obtain ⟨r, hr⟩ := h.known k name hname
  rw [onDemand, getIn_of_known hr, cachedMarkings, lookup?_of_known hr]

/-- **Corruption is reported exactly when it matters.** A depstore whose tables can be found is
opened. Its audit fails if and only if a row that matters cannot be read, and it does so with the
first such row: a row that holds no record is reported as a corrupt record, and a text that is not
UTF-8 as a store that is unavailable. So where all texts are UTF-8, a corrupt record is reported if
and only if a row that matters cannot be read. Once the graph and its entry points are there, the
audit succeeds: all markings that its walks ask for are answered from memory, whatever the files
have become, and give the same report. -/
theorem corruption_is_reported (depstore : Path) (scope : VisitScope) (w : World) (M C : Table)
    (h : Holds depstore w.files M C) :
    ∃ a w', (Analyzer.openAt depstore scope).run.run w = (.ok a, w') ∧
      ((∃ e, (a.audit w'.files).result = .error e) ↔ FaultMatters M C) ∧
      (∀ e, (a.audit w'.files).result = .error e → ∃ fault, FirstFault M C fault ∧ Brings fault e) ∧
      (IsUtf8 M → IsUtf8 C →
        ((∃ table key reason, (a.audit w'.files).result =
          .error (.corruptRecord table key reason)) ↔
          FaultMatters M C)) ∧
      ∀ v, (a.view w'.files).result = .ok v → ∃ report, (a.audit w'.files).result = .ok report ∧
        (∀ later k name, v.graph.nameOf k = .ok name →
          ∃ item, (a.view w'.files).analyzer.markings.getIn later (definitionName name) =
            ((a.view w'.files).analyzer.markings, .ok item)) ∧
        ∀ later fallback,
          v.graph.audit (onDemand (a.view w'.files).analyzer.markings later fallback) scope
            v.entries =
            .ok report := by
  obtain ⟨a, w', hopen, rfl, hover⟩ := exists_openAt h scope
  have hfails : (∃ e, (a.audit w'.files).result = .error e) ↔ FaultMatters M C := by
    rw [← exists_firstFault_iff]
    rcases audit_cases hover with ⟨fault, e, hfirst, -, -, haudit⟩ |
      ⟨graph, nodes, hnamed, hnodes, hviewed, hnone⟩
    · exact ⟨fun _ => ⟨fault, hfirst⟩, fun _ => ⟨e, haudit⟩⟩
    · obtain ⟨report, -, haudit⟩ := hviewed.audit hnamed hnodes
      refine ⟨?_, fun hfault => absurd hfault hnone⟩
      rintro ⟨e, he⟩
      cases haudit.symm.trans he
  have hbrings : ∀ e, (a.audit w'.files).result = .error e →
      ∃ fault, FirstFault M C fault ∧ Brings fault e := by
    intro e he
    rcases audit_cases hover with ⟨fault, e', hfirst, hbrings, -, haudit⟩ |
      ⟨graph, nodes, hnamed, hnodes, hviewed, -⟩
    · obtain rfl := Except.error.inj (haudit.symm.trans he)
      exact ⟨fault, hfirst, hbrings⟩
    · obtain ⟨report, -, haudit⟩ := hviewed.audit hnamed hnodes
      cases haudit.symm.trans he
  refine ⟨a, w', hopen, hfails, hbrings, fun hM hC => ⟨?_, fun hmatters => ?_⟩, fun v hv => ?_⟩
  · rintro ⟨table, key, reason, herror⟩
    exact hfails.1 ⟨_, herror⟩
  · obtain ⟨e, he⟩ := hfails.2 hmatters
    obtain ⟨fault, hfirst, hbrings⟩ := hbrings e he
    obtain ⟨reason, rfl⟩ := hfirst.refused hM hC
    cases hbrings with
    | refused table key => exact ⟨table, key, reason, he⟩
  · rcases audit_cases hover with ⟨fault, e, -, -, hview, -⟩ |
      ⟨graph, nodes, hnamed, hnodes, hviewed, -⟩
    · cases hview.symm.trans hv
    · obtain rfl := Except.ok.inj (hviewed.result.symm.trans hv)
      obtain ⟨report, hreport, haudit⟩ := hviewed.audit hnamed hnodes
      refine ⟨report, haudit, ?_, ?_⟩
      · intro later k name hname
        obtain ⟨r, hr⟩ := hviewed.known k name hname
        exact ⟨r, getIn_of_known hr later⟩
      · intro later fallback
        exact (audit_congr (hviewed.agree later fallback) a.scope _).trans hreport

/-- A table with a number in the row of a definition. -/
def oddMarkings : Table := ({} : Table).put (.text "sign") (.int 7)

/-- A call of this definition. -/
def callOfSign : CallEdge := { callee := "sign", location := { file := "f", line := 1 } }

/-- A table in which `main` calls this definition. -/
def oneCall : Table :=
  ({} : Table).put (.text "main") (recordCell CallEdge.format.list [callOfSign])

/-- A table in which the calls of `main` are a text that is not UTF-8. -/
def strayCall : Table := ({} : Table).put (.text "main") (.text [0xff])

/-- A depstore with these tables. -/
def filesWith (M C : Table) : FileTree :=
  { nodes := [(["d"], .directory), (["d", "marking"], .directory), (["d", "calledge"], .directory),
      (["d", "marking", "db"], .file (.table M 1)), (["d", "calledge", "db"], .file (.table C 1))] }

/-- A number in the row of a definition that is called is a corrupt record. A text that is not UTF-8
makes the store unavailable. -/
theorem corruption_is_reported_at_callee :
    Holds (pathOf "d") (filesWith oddMarkings oneCall) oddMarkings oneCall ∧
      (∃ a w', (Analyzer.openAt (pathOf "d") .run).run.run
        { files := filesWith oddMarkings oneCall } =
          (.ok a, w') ∧
        ∃ table key reason, (a.audit w'.files).result = .error (.corruptRecord table key reason)) ∧
    Holds (pathOf "d") (filesWith {} strayCall) {} strayCall ∧
      ∃ a w', (Analyzer.openAt (pathOf "d") .run).run.run { files := filesWith {} strayCall } =
          (.ok a, w') ∧
        ∃ path, (a.audit w'.files).result = .error (.storeUnavailable path
          (UnreadableText.message { column := "value", bytes := [0xff] })) := by
  have hholds : Holds (pathOf "d") (filesWith oddMarkings oneCall) oddMarkings oneCall :=
    ⟨by decide +kernel, by decide +kernel⟩
  have hread : (readRows CallEdge.format.list oneCall).toOption.isSome = true ∧
      (readRows CallEdge.format.list oneCall).toOption.bind (fun records =>
        (surviving records).toOption.bind fun result => (result.2.nameOf 1).toOption) =
          some "sign<>" ∧
      oddMarkings.get? (.text (definitionName "sign<>")) = some (.int 7) := by
    decide +kernel
  obtain ⟨hsome, hname, hcell⟩ := hread
  have hrecords := eq_ok_get hsome
  generalize (readRows CallEdge.format.list oneCall).toOption.get hsome = records at hrecords
  rw [hrecords] at hname
  obtain ⟨pruned, graph, hsurviving, -⟩ := named_surviving records
  have hnode : graph.nameOf 1 = .ok "sign<>" := by
    simp only [hsurviving, Except.toOption, Option.bind_some] at hname
    cases hgraph : graph.nameOf 1 with
    | error e => simp [hgraph] at hname
    | ok name => simpa [hgraph] using hname
  have hmarkings : IsUtf8 oddMarkings := by
    intro row hrow
    obtain rfl := List.mem_singleton.1 hrow
    exact ⟨⟨"sign", by decide +kernel⟩, by simp⟩
  have hcalls : IsUtf8 oneCall := by
    intro row hrow
    obtain rfl := List.mem_singleton.1 hrow
    refine ⟨⟨"main", by decide +kernel⟩, ?_⟩
    rintro bytes ⟨⟩
    exact ⟨CallEdge.format.list.toStored [callOfSign], by decide +kernel⟩
  obtain ⟨a, w', hopen, -, -, hiff, -⟩ :=
    corruption_is_reported (pathOf "d") .run { files := filesWith oddMarkings oneCall } oddMarkings
      oneCall hholds
  refine ⟨hholds, ⟨a, w', hopen, (hiff hmarkings hcalls).2 (.marking records pruned graph hrecords
    hsurviving 1 _ _ hnode hcell _ rfl)⟩, ?_⟩
  have hstray : Holds (pathOf "d") (filesWith {} strayCall) {} strayCall :=
    ⟨by decide +kernel, by decide +kernel⟩
  have hfault : readRows CallEdge.format.list strayCall =
      .error (.unreadable { column := "value", bytes := [0xff] }) := by decide +kernel
  obtain ⟨a, w', hopen, hfails, hbrings, -⟩ :=
    corruption_is_reported (pathOf "d") .run { files := filesWith {} strayCall } {} strayCall hstray
  obtain ⟨e, he⟩ := hfails.2 (exists_firstFault_iff.1 ⟨_, .call hfault⟩)
  refine ⟨hstray, a, w', hopen, ?_⟩
  obtain ⟨fault, hfirst, hbrings⟩ := hbrings e he
  cases hfirst with
  | call h =>
    obtain rfl := Except.error.inj (hfault.symm.trans h)
    cases hbrings with
    | unreadable path => exact ⟨path, he⟩
  | marking _ _ _ _ hread => cases hfault.symm.trans hread

end Analyzer

end CallAudit
