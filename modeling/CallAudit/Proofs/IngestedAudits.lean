import CallAudit.Proofs.Analyzing
import CallAudit.Proofs.Loading

/-!
# Auditing what has been ingested

Record files that an empty depstore takes in can be audited through the depstore, or their records
can be analysed directly; both ways end with the same report (`Ingest.ingest_then_audit`). All that
the files hold can be read back, since a reader of the files takes no integer that a reader of the
store does not take. The rows of the calls come in the order of the table instead of the order of
the file (`Store.perm_readRows`), which makes no difference to the report. The markings that the
audit asks for are those of the file, and other ones it does not ask for.
-/

namespace CallAudit

open CallGraph

/-! ## Reading back a table -/

namespace Store

variable {α : Type} {format : RecordFormat α} {room : Nat} {batch : List (Text × α)} {T : Table}

/-- The rows of a table to which a batch has been written: each holds a record of the batch. -/
theorem mem_rows_iff (hnodup : (batch.map (·.1)).Nodup) (h : tableWith format {} batch = .ok T)
    {row : TableKey × Cell} : row ∈ T.rows ↔
      ∃ key a bytes, (key, a) ∈ batch ∧ encodeRecord format a = .ok bytes ∧
        row = (.text key, .blob bytes) := by
  obtain ⟨rowKey, cell⟩ := row
  rw [← Table.get?_eq_some_iff]
  constructor
  · intro hcell
    have habsent : ({} : Table).get? rowKey = none := rfl
    by_cases hnone : ∀ text, rowKey = .text text → lastIn text batch = none
    · rw [get?_tableWith h hnone, habsent] at hcell
      cases hcell
    · push Not at hnone
      obtain ⟨key, rfl, hsome⟩ := hnone
      obtain ⟨a, ha⟩ := Option.ne_none_iff_exists'.1 hsome
      obtain ⟨bytes, hbytes, hrow⟩ := stores_of_tableWith h ha
      rw [lastIn_of_nodup hnodup, Json.lookup?_eq_some_iff hnodup] at ha
      rw [hcell] at hrow
      exact ⟨key, a, bytes, ha, hbytes, by rw [Option.some.inj hrow]⟩
  · rintro ⟨key, a, bytes, ha, hbytes, hrow⟩
    obtain ⟨rfl, rfl⟩ := Prod.mk.inj hrow
    rw [← Json.lookup?_eq_some_iff hnodup, ← lastIn_of_nodup hnodup] at ha
    obtain ⟨bytes', hbytes', hrow⟩ := stores_of_tableWith h ha
    rw [hrow, Except.ok.inj (hbytes.symm.trans hbytes')]

/-- The row of a record that has been written is read as the record. -/
theorem readEntry_of_stored (hformat : format.Faithful room)
    (hroom : room ≤ Json.storedDialect.maxDepth)
    (hfits : ∀ row ∈ batch, .bad ∉ Json.tokensOf (format.toJson row.2))
    (h : tableWith format {} batch = .ok T) {record : Text × α} (hrecord : record ∈ batch)
    {bytes : List UInt8} (hbytes : encodeRecord format record.2 = .ok bytes) :
    readEntry format (.text record.1, .blob bytes) = .ok record := by
  have hkey := (exists_tableWith.1 ⟨T, h⟩ record hrecord).1
  exact readEntry_eq_ok.2 ⟨TableKey.read_text hkey,
    decodeCell_of_fits hformat hroom hbytes (hfits _ hrecord)⟩

/-- A table to which a batch has been written holds the records of the batch in another order. -/
theorem perm_readRows (hformat : format.Faithful room) (hroom : room ≤ Json.storedDialect.maxDepth)
    (hnodup : (batch.map (·.1)).Nodup)
    (hfits : ∀ row ∈ batch, .bad ∉ Json.tokensOf (format.toJson row.2))
    (h : tableWith format {} batch = .ok T) :
    ∃ out, readRows format T = .ok out ∧ batch.Perm out := by
  have hread {record : Text × α} (hrecord : record ∈ batch) {bytes : List UInt8}
      (hbytes : encodeRecord format record.2 = .ok bytes) :=
    readEntry_of_stored hformat hroom hfits h hrecord hbytes
  obtain ⟨out, hout⟩ := mapM_ok (l := T.rows) (f := readEntry format) fun row hrow => by
    obtain ⟨key, a, bytes, ha, hbytes, rfl⟩ := (mem_rows_iff hnodup h).1 hrow
    exact ⟨(key, a), hread ha hbytes⟩
  refine ⟨out, hout, ?_⟩
  have hmem (p : Text × α) : p ∈ out ↔ p ∈ batch := by
    have hok : p ∈ out ↔ Except.ok p ∈ T.rows.map (readEntry format) := by
      rw [mapM_eq_ok.1 hout]
      simp
    rw [hok, List.mem_map]
    constructor
    · rintro ⟨row, hrow, hp⟩
      obtain ⟨key, a, bytes, ha, hbytes, rfl⟩ := (mem_rows_iff hnodup h).1 hrow
      rw [hread ha hbytes] at hp
      rwa [← Except.ok.inj hp]
    · intro hp
      obtain ⟨bytes, hbytes⟩ := exists_encodeRecord (exists_tableWith.1 ⟨T, h⟩ p hp).2
      exact ⟨_, (mem_rows_iff hnodup h).2 ⟨p.1, p.2, bytes, hp, hbytes, rfl⟩, hread hp hbytes⟩
  -- different rows have different keys, so no record occurs twice
  have hkeys : T.rows.map (·.1) = out.map fun record => .text record.1 := by
    refine map_eq_of_mapM hout fun row hrow record hrecord => ?_
    obtain ⟨key, a, bytes, ha, hbytes, rfl⟩ := (mem_rows_iff hnodup h).1 hrow
    rw [← Except.ok.inj ((hread ha hbytes).symm.trans hrecord)]
  have hrows : out.Nodup := List.Nodup.of_map _ (hkeys ▸ T.nodup_keys)
  exact (List.perm_ext_iff_of_nodup (List.Nodup.of_map _ hnodup) hrows).2 fun p => (hmem p).symm

end Store

/-! ## Records of files can be read back -/

namespace Ingest

open Store

variable {depstore : Path} {files : FileTree} {path : Path} {w w' : World}

theorem legible_loadCalls {calls : List (Text × List CallEdge)}
    (h : loadCalls files path = .ok calls) :
    ∀ row ∈ calls, ∀ e ∈ row.2, e.Legible Json.inputDialect := by
  unfold loadCalls at h
  split at h
  · cases h
  · refine foldLines_induction (fun calls => ∀ row ∈ calls, ∀ e ∈ row.2,
      e.Legible Json.inputDialect)
      ?_ (by simp) h
    intro calls line calls' hcalls hline
    unfold addCallLine at hline
    split at hline
    · cases hline
    · next r hrecord =>
      obtain ⟨v, hv, hcheck⟩ := readable_of_recordOf hrecord
      rw [← Except.ok.inj hline]
      intro row hrow
      rcases Json.mem_setField hrow with rfl | hrow
      · exact CallRecord.legible_of_check hv hcheck
      · exact hcalls row hrow

/-- What holds of the marking of a line, and still holds after the marking of a later line has been
merged into it, holds of all markings of a file. -/
theorem loadMarkings_induction {P : Text → MarkedItem → Prop} {items : List (Text × MarkedItem)}
    (hnew : ∀ text r, Takes text r → r.marking.isAnnotated = true →
      P r.name { marking := r.marking, location := r.location })
    (hmerge : ∀ text r item, Takes text r → r.marking.isAnnotated = true → P r.name item →
      P r.name { item with marking := item.marking.merge r.marking })
    (h : loadMarkings files path = .ok items) : ∀ row ∈ items, P row.1 row.2 := by
  unfold loadMarkings at h
  split at h
  · cases h
  · refine (foldLines_induction (fun items => (items.map (·.1)).Nodup ∧
      ∀ row ∈ items, P row.1 row.2) ?_
      ⟨List.nodup_nil, by simp⟩ h).2
    rintro items line items' ⟨hnodup, hitems⟩ hline
    obtain ⟨r, htakes, rfl⟩ := addMarkingLine_eq_ok.1 hline
    refine ⟨nodup_addRecord hnodup r, fun row hrow => ?_⟩
    unfold addRecord addMarking at hrow
    split at hrow
    · next hannotated =>
      split at hrow
      · rcases Json.mem_setField hrow with rfl | hrow
        · exact hnew line.2 r htakes hannotated
        · exact hitems row hrow
      · next item hitem =>
        have hold : P r.name item := hitems _ ((Json.lookup?_eq_some_iff hnodup).1 hitem)
        rcases Json.mem_setField hrow with rfl | hrow
        · exact hmerge line.2 r item htakes hannotated hold
        · exact hitems row hrow
    · exact hitems row hrow

theorem fits_loadMarkings {items : List (Text × MarkedItem)}
    (h : loadMarkings files path = .ok items) :
    ∀ row ∈ items, Json.FitsReader row.2.location.line := by
  refine loadMarkings_induction (P := fun _ item => Json.FitsReader item.location.line) ?_ ?_ h
  · intro text r htakes _
    obtain ⟨v, hv, hcheck⟩ := readable_of_recordOf htakes.1
    exact MarkingRecord.fits_of_check hv hcheck
  · intro text r item _ _ hitem
    exact hitem

/-- What holds of the records of every file holds where a file may be left out. -/
theorem given_induction {α : Type} {load : FileTree → Path → Except Failure (List α)}
    {P : List α → Prop} (hnil : P []) (hload : ∀ p records, load files p = .ok records → P records)
    {file : Option Path} {records : List α}
    (h : given load files file = .ok records) : P records := by
  cases file with
  | none => exact Except.ok.inj h ▸ hnil
  | some p => exact hload p records h

theorem not_bad_mem {item : MarkedItem} (h : Json.FitsReader item.location.line) :
    .bad ∉ Json.tokensOf (MarkedItem.format.toJson item) := by
  simpa [MarkedItem.format] using h

/-- The markings of a file as a source of markings. -/
def sourceOf (markings : List (Text × MarkedItem)) : MarkingSource := fun name =>
  (Json.lookup? name markings).map (·.marking)

/-- What is remembered of a table to which markings have been written is what they say. -/
theorem cachedMarkings_eq {markings : List (Text × MarkedItem)} {M : Table} {s : Store MarkedItem}
    (hnodup : (markings.map (·.1)).Nodup)
    (hfits : ∀ row ∈ markings, Json.FitsReader row.2.location.line)
    (hM : tableWith MarkedItem.format {} markings = .ok M) (hformat : s.format = MarkedItem.format)
    (hmirrors : s.Mirrors M) {name : Text} {r : Option MarkedItem}
    (hknown : s.known name = some r) : Analyzer.cachedMarkings s name = sourceOf markings name := by
  have hrow := hmirrors name r hknown
  have hstored := stores_or_same hnodup hM name
  rw [Analyzer.cachedMarkings, lookup?_of_known hknown, sourceOf]
  unfold readRow at hrow
  cases hencode : Utf8.encode name with
  | error fault => simp [hencode] at hrow
  | ok bytes =>
    cases hitem : Json.lookup? name markings with
    | none =>
      simp only [hitem] at hstored
      have habsent : M.get? (.text name) = none := hstored
      simp only [hencode, habsent] at hrow
      rw [← Except.ok.inj hrow]
    | some item =>
      simp only [hitem] at hstored
      obtain ⟨cell, hcell, hget⟩ := hstored
      have hmem := (Json.lookup?_eq_some_iff hnodup).1 hitem
      have hdecode :=
        decodeCell_of_fits (MarkedItem.faithful 0) (by decide) hcell (not_bad_mem (hfits _ hmem))
      simp only [hencode, hget, decode, hformat, hdecode, Except.mapError, Except.map] at hrow
      rw [← Except.ok.inj hrow]

/-- **Ingest, then audit.** If record files are taken into a depstore whose tables are empty, then
the depstore can be opened, and its audit ends with the report of a direct analysis: of the calls of
the one file, with the markings of the other. The report is the same in whatever order the calls are
given. -/
theorem ingest_then_audit (depstore : Path) (markingsFile callsFile : Option Path)
    (scope : VisitScope) (w w' : World) (summary : Summary) (h : Holds depstore w.files {} {})
    (hrun : (Ingest.run depstore markingsFile callsFile).run.run w = (.ok summary, w')) :
    ∃ markings calls a after direct, given loadMarkings w.files markingsFile = .ok markings ∧
      given loadCalls w.files callsFile = .ok calls ∧
      (Analyzer.openAt depstore scope).run.run w' = (.ok a, after) ∧
      Analysis.ofRecords calls (sourceOf markings) scope none = .ok direct ∧
      (a.audit after.files).result = .ok direct.report ∧
      ∀ records, calls.Perm records →
        ∃ other, Analysis.ofRecords records (sourceOf markings) scope none = .ok other ∧
          other.report = direct.report := by
  obtain ⟨markings, calls, M, C, ⟨hmarkings, hcalls, -⟩, hM, hC, hholds⟩ := run_eq_ok h hrun
  have hnames := given_induction (P := fun items => (items.map (·.1)).Nodup) List.nodup_nil
    (fun _ _ => nodup_loadMarkings) hmarkings
  have hcallers := given_induction (P := fun calls => (calls.map (·.1)).Nodup) List.nodup_nil
    (fun _ _ => nodup_loadCalls) hcalls
  have hfits :=
    given_induction (P := fun items => ∀ row ∈ items, Json.FitsReader row.2.location.line) (by simp)
    (fun _ _ => fits_loadMarkings) hmarkings
  have hlegible :=
    given_induction (P := fun calls => ∀ row ∈ calls, ∀ e ∈ row.2, e.Legible Json.inputDialect)
    (by simp) (fun _ _ => legible_loadCalls) hcalls
  have hreadable : ∀ row ∈ calls, .bad ∉ Json.tokensOf (CallEdge.format.list.toJson row.2) := by
    intro row hrow hbad
    obtain ⟨v, hv, hbad⟩ := (Json.bad_mem_arr _).1 hbad
    obtain ⟨e, he, rfl⟩ := List.mem_map.1 hv
    simp [CallEdge.format, (hlegible row hrow e he).line] at hbad
  obtain ⟨records, hread, hperm⟩ :=
    perm_readRows (CallEdge.faithful 0).list (by decide) hcallers hreadable hC
  obtain ⟨a, after, hopen, rfl, hover⟩ := Analyzer.exists_openAt hholds scope
  rcases Analyzer.view_cases hover with ⟨key, fault, hfault, -⟩ |
    ⟨records', pruned, graph, nodes, hread', hsurviving, hnamed, hnodes,
      ⟨name, fault, hfault, -⟩ | hviewed⟩
  · -- no call row is corrupt
    cases hread.symm.trans hfault
  · -- no marking row is corrupt
    obtain ⟨before, key, rest, -, -, hkey⟩ := mapM_eq_error.1 hfault
    obtain ⟨cell, hcell, hdecode⟩ := readAt_eq_error.1 hkey
    obtain ⟨_, item, bytes, hitem, hbytes, hrow⟩ :=
      (mem_rows_iff hnames hM).1 (Table.get?_eq_some_iff.1 hcell)
    obtain ⟨-, rfl⟩ := Prod.mk.inj hrow
    rw [decodeCell_of_fits (MarkedItem.faithful 0) (by decide) hbytes
      (not_bad_mem (hfits _ hitem))] at hdecode
    cases hdecode
  · obtain rfl : records = records' := Except.ok.inj (hread.symm.trans hread')
    have hagree :
        graph.Agree (sourceOf markings)
          (Analyzer.cachedMarkings (a.view after.files).analyzer.markings) := by
      intro k name hname
      obtain ⟨r, hr⟩ := hviewed.known k name hname
      exact cachedMarkings_eq hnames hfits hM hviewed.format hviewed.mirrors hr
    obtain ⟨report, hreport, haudit⟩ := hviewed.audit hnamed hnodes
    rw [entriesAmong_congr hagree hnodes, audit_congr hagree] at hreport
    have hstored :=
      Analysis.ofRecords_eq_ok hsurviving (entryPoints_eq_ok.2 ⟨nodes, hnodes, rfl⟩) hreport
    obtain ⟨_, _, _, _, _, direct, -, -, -, hdirect, hstored'⟩ :=
      Analysis.ofRecords_perm hcallers hperm (sourceOf markings) a.scope
    obtain rfl : report = direct :=
      congrArg Analysis.report (Except.ok.inj (hstored.symm.trans hstored'))
    refine ⟨markings, calls, a, after, _, hmarkings, hcalls, hopen, hdirect, haudit,
      fun other hother => ?_⟩
    obtain ⟨_, _, _, _, _, again, -, -, -, hdirect', hother⟩ :=
      Analysis.ofRecords_perm hcallers hother (sourceOf markings) a.scope
    obtain rfl : report = again :=
      congrArg Analysis.report (Except.ok.inj (hdirect.symm.trans hdirect'))
    exact ⟨_, hother, rfl⟩

/-- Files with two lines each: `m` is an entry point and calls `a`, which calls `s`, which has to be
audited. The callers do not stand in the order of their names. -/
def signingFiles : FileTree :=
  { nodes := [
      recordFile "m" MarkingRecord.format [
        markedAt 1 "m" { isEntryPoint := true }, markedAt 2 "s" { requiresAudit := some "g" }],
      recordFile "c" CallRecord.format [callsAt 3 "m" ["a"], callsAt 4 "a<>" ["s"]]] }

/-- The markings in these files. -/
def signingMarkings : List (Text × MarkedItem) :=
  [(['m'], { marking := { isEntryPoint := true }, location := { file := ['f'], line := 1 } }),
    (['s'], { marking := { requiresAudit := some ['g'] },
              location := { file := ['f'], line := 2 } })]

/-- The calls in these files. -/
def signingCalls : List (Text × List CallEdge) :=
  [(['m'], [{ callee := ['a'], location := { file := ['f'], line := 3 } }]),
    (['a', '<', '>'], [{ callee := ['s'], location := { file := ['f'], line := 4 } }])]

/-- The ingest of these files. -/
def signingIngest : Except Failure Summary × World :=
  (Ingest.run (pathOf "d") (some (pathOf "m")) (some (pathOf "c"))).run.run
    { files := signingFiles }

/-- The audit after this ingest finds the one unaudited use. -/
theorem ingest_then_audit_signing :
    Holds (pathOf "d") signingFiles {} {} ∧ signingIngest.1 = .ok ⟨2, 2, 2⟩ ∧
      ∃ a after report, (Analyzer.openAt (pathOf "d") .entryPoint).run.run signingIngest.2 =
        (.ok a, after) ∧
        (a.audit after.files).result = .ok report ∧ report.unaudited.length = 1 := by
  have hholds : Holds (pathOf "d") signingFiles {} {} := ⟨by decide +kernel, by decide +kernel⟩
  have hvalues : signingIngest.1 = .ok ⟨2, 2, 2⟩ ∧
      given loadMarkings signingFiles (some (pathOf "m")) = .ok signingMarkings ∧
      given loadCalls signingFiles (some (pathOf "c")) = .ok signingCalls := by
    decide +kernel
  obtain ⟨hok, hmarkings, hcalls⟩ := hvalues
  have hcount : (Analysis.ofRecords signingCalls (sourceOf signingMarkings) .entryPoint none).map
      (fun direct => direct.report.unaudited.length) = .ok 1 := by cbv
  have hrun : signingIngest = (.ok ⟨2, 2, 2⟩, signingIngest.2) := eq_mk_of_fst hok
  refine ⟨hholds, hok, ?_⟩
  generalize signingIngest.2 = w' at hrun ⊢
  obtain ⟨markings, calls, a, after, direct, hmarkings', hcalls', hopen, hdirect, haudit, -⟩ :=
    ingest_then_audit (pathOf "d") (some (pathOf "m")) (some (pathOf "c")) .entryPoint
      { files := signingFiles } w'
      ⟨2, 2, 2⟩ hholds hrun
  obtain rfl : signingMarkings = markings := Except.ok.inj (hmarkings.symm.trans hmarkings')
  obtain rfl : signingCalls = calls := Except.ok.inj (hcalls.symm.trans hcalls')
  rw [hdirect] at hcount
  exact ⟨a, after, direct.report, hopen, haudit, Except.ok.inj hcount⟩

end Ingest

end CallAudit
