import CallAudit.Proofs.LawfulMarkings
import CallAudit.Proofs.Refusals

/-!
# The effect of an ingest

What a successful ingest leaves behind, said of the lines of its files without the loops that take
them in. The markings of a name settle to one: the last group of each kind that one of its lines
sets, the flag of any of them and the location of the first that has a role (`Ingest.settled`,
`Ingest.lookup?_foldl_addRecord`). The calls of a caller are those of its last line
(`Ingest.finalCalls`). These rows are written, every other row stays (`Ingest.Updates`), and the
summary counts the names, the callers and the calls (`Ingest.ingest_effect`).
-/

namespace CallAudit

namespace Ingest

open FileTree Store

variable {depstore : Path} {markingsFile callsFile : Option Path} {files : FileTree} {w w' : World}

/-! ## Markings that settle -/

/-- What records of one name come down to, if one of them has a role: the last group of each kind,
the flag if it is set at all, and the location of the first that has a role. -/
def settle (own : List MarkingRecord) : Option MarkedItem :=
  (own.find? (·.marking.isAnnotated)).map fun first =>
    { marking := {
        requiresAudit := (own.filterMap (·.marking.requiresAudit)).getLast?
        audited := (own.filterMap (·.marking.audited)).getLast?
        isEntryPoint := own.any (·.marking.isEntryPoint) }
      location := first.location }

/-- What the records of a file make of a name. -/
def settled (records : List MarkingRecord) (name : Text) : Option MarkedItem :=
  settle (records.filter (·.name = name))

theorem eq_empty_of_not_isAnnotated {m : Marking} (h : m.isAnnotated = false) : m = {} := by
  obtain ⟨required, audited, isEntryPoint⟩ := m
  simp_all [Marking.isAnnotated]

theorem settle_singleton {r : MarkingRecord} (h : r.marking.isAnnotated = true) :
    settle [r] = some { marking := r.marking, location := r.location } := by
  obtain ⟨name, ⟨required, audited, isEntryPoint⟩, location⟩ := r
  cases required <;> cases audited <;> simp [settle, h]

/-- One more record for a name is combined with what was settled. -/
theorem settle_concat (own : List MarkingRecord) (r : MarkingRecord) :
    settle (own ++ [r]) = combine (settle own) (settle [r]) := by
  cases hannotated : r.marking.isAnnotated with
  | false =>
    have hempty := eq_empty_of_not_isAnnotated hannotated
    have hnone : settle [r] = none := by simp [settle, hannotated]
    have hsame : settle (own ++ [r]) = settle own := by
      simp [settle, List.find?_append, hempty, Marking.isAnnotated]
    rw [hsame, hnone]
    cases settle own <;> rfl
  | true =>
    rw [settle_singleton hannotated]
    cases hfirst : own.find? (·.marking.isAnnotated) with
    | none =>
      -- nothing has been set before
      have hempty : ∀ r ∈ own, r.marking = {} := fun r hr =>
        eq_empty_of_not_isAnnotated (by simpa using List.find?_eq_none.1 hfirst r hr)
      have hrequired : own.filterMap (·.marking.requiresAudit) = [] :=
        List.filterMap_eq_nil_iff.2 fun r hr => by rw [hempty r hr]
      have haudited : own.filterMap (·.marking.audited) = [] :=
        List.filterMap_eq_nil_iff.2 fun r hr => by rw [hempty r hr]
      have hentry : own.any (·.marking.isEntryPoint) = false :=
        List.any_eq_false.2 fun r hr => by simp [hempty r hr]
      have hnone : settle own = none := by simp [settle, hfirst]
      rw [hnone, ← settle_singleton hannotated]
      simp [settle, combine, List.find?_append, hfirst, hrequired, haudited, hentry]
    | some first =>
      obtain ⟨name, ⟨required, audited, isEntryPoint⟩, location⟩ := r
      cases required <;> cases audited <;>
        simp [settle, List.find?_append, hfirst, combine, Marking.merge]

theorem lookup?_addRecord_nil (r : MarkingRecord) (name : Text) :
    Json.lookup? name (addRecord [] r) = if r.name = name then settle [r] else none := by
  cases hannotated : r.marking.isAnnotated with
  | false => simp [addRecord, hannotated, Json.lookup?, settle]
  | true =>
    by_cases hname : r.name = name
    · simp [addRecord, addMarking, hannotated, Json.lookup?, hname, settle_singleton hannotated]
    · simp [addRecord, addMarking, hannotated, Json.lookup?, hname, Ne.symm hname]

/-- One more record of a file is combined with what was settled for its name. -/
theorem settled_concat (records : List MarkingRecord) (r : MarkingRecord) (name : Text) :
    settled (records ++ [r]) name = combine (settled records name)
      (Json.lookup? name (addRecord [] r)) := by
  rw [lookup?_addRecord_nil, settled, settled, List.filter_append]
  by_cases hname : r.name = name
  · simp [hname, settle_concat]
  · cases hsettle : settle (records.filter (·.name = name)) <;> simp [hname, hsettle, combine]

/-- **Markings settle.** -/
theorem lookup?_foldl_addRecord (records : List MarkingRecord) (name : Text) :
    Json.lookup? name (records.foldl addRecord []) = settled records name := by
  induction records using List.reverseRecOn with
  | nil => rfl
  | append_singleton records r ih =>
    rw [List.foldl_append, List.foldl_cons, List.foldl_nil, lookup?_addRecord, ih, settled_concat]

theorem keys_addMarking (items : List (Text × MarkedItem)) (r : MarkingRecord) :
    (addMarking items r).map (·.1) =
      if r.name ∈ items.map (·.1) then items.map (·.1) else items.map (·.1) ++ [r.name] := by
  unfold addMarking
  split <;> exact Json.keys_setField _ _ _

/-- Markings are listed by the first record that annotates a name. -/
theorem keys_foldl_addRecord (records : List MarkingRecord) :
    (records.foldl addRecord []).map (·.1) =
      ((records.filter (·.marking.isAnnotated)).map (·.name)).eraseDups := by
  induction records using List.reverseRecOn with
  | nil => rfl
  | append_singleton records r ih =>
    rw [List.foldl_append, List.foldl_cons, List.foldl_nil, List.filter_append, List.map_append]
    cases hannotated : r.marking.isAnnotated with
    | false => simp [addRecord, hannotated, ih]
    | true =>
      simp only [addRecord, hannotated, if_true, keys_addMarking, ih, List.mem_eraseDups]
      simp [hannotated, eraseDups_concat]

/-! ## Calls of the last line -/

/-- The calls of a caller, which are those of its last record. -/
def finalCalls (records : List CallRecord) (caller : Text) : Option (List CallEdge) :=
  (records.filter (·.caller = caller)).getLast?.map (·.edges)

/-- Takes a record into those before, in place of one of the same caller. -/
def setCalls (calls : List (Text × List CallEdge)) (r : CallRecord) : List (Text × List CallEdge) :=
  Json.setField r.caller r.edges calls

/-- The calls of a caller are those of its last record. -/
theorem lookup?_foldl_setCalls (records : List CallRecord) (caller : Text) :
    Json.lookup? caller (records.foldl setCalls []) = finalCalls records caller := by
  induction records using List.reverseRecOn with
  | nil => rfl
  | append_singleton records r ih =>
    rw [List.foldl_append, List.foldl_cons, List.foldl_nil, setCalls, Json.lookup?_setField, ih,
      finalCalls, finalCalls, List.filter_append]
    by_cases hcaller : r.caller = caller
    · simp [hcaller]
    · simp [hcaller, Ne.symm hcaller]

/-- Calls are listed by the first record of a caller. -/
theorem keys_foldl_setCalls (records : List CallRecord) :
    (records.foldl setCalls []).map (·.1) = (records.map (·.caller)).eraseDups := by
  induction records using List.reverseRecOn with
  | nil => rfl
  | append_singleton records r ih =>
    rw [List.foldl_append, List.foldl_cons, List.foldl_nil, setCalls, Json.keys_setField, ih,
      List.map_append, List.map_cons, List.map_nil, eraseDups_concat]
    simp only [List.mem_eraseDups]

/-- The calls of a file are those of the last line of each caller. -/
theorem length_flatMap_foldl_setCalls (records : List CallRecord) :
    ((records.foldl setCalls []).flatMap fun row => row.2).length =
      ((records.map (·.caller)).eraseDups.map fun caller =>
        ((finalCalls records caller).getD []).length).sum := by
  have hnodup : ((records.foldl setCalls []).map (·.1)).Nodup := by
    rw [keys_foldl_setCalls]
    exact nodup_eraseDups _
  rw [List.length_flatMap, ← keys_foldl_setCalls, List.map_map]
  refine congrArg List.sum (List.map_congr_left fun row hrow => ?_)
  have hfinal : finalCalls records row.1 = some row.2 := by
    rw [← lookup?_foldl_setCalls]
    exact (Json.lookup?_eq_some_iff hnodup).2 hrow
  simp [hfinal]

/-! ## Records of a file -/

/-- The records of a file, if there is one: each line that is not blank holds one. -/
def RecordsIn {α : Type} (format : RecordFormat α) (files : FileTree) (path : Option Path)
    (records : List α) : Prop :=
  ∃ lines, GivenLines files path lines ∧
    List.Forall₂ (fun line r => IsRecord format (Text.trim line) r)
      (lines.filter fun line => line.any fun c => !Text.isBlank c) records

/-- The texts of a file are its lines, trimmed, without those that are blank. -/
theorem map_textsFrom (number : Nat) (lines : List Text) :
    (textsFrom number lines).map (·.2) =
      (lines.filter fun line => line.any fun c => !Text.isBlank c).map Text.trim := by
  induction lines generalizing number with
  | nil => rfl
  | cons line rest ih =>
    by_cases hblank : Text.trim line = []
    · have hall := Text.trim_eq_nil.1 hblank
      rw [textsFrom_blank hblank, ih, List.filter_cons_of_neg]
      simpa using hall
    · have hsome := not_blank.2 hblank
      rw [textsFrom_cons hblank, List.map_cons, ih, List.filter_cons_of_pos, List.map_cons]
      simpa using hsome

/-- The lines that are taken from a file are the lines of the file. -/
theorem givenLines_of_recordLines {path : Path} {texts : List (Nat × Text)}
    (h : recordLines files path = .ok texts) :
    ∃ lines, GivenLines files (some path) lines ∧ texts = textsFrom 1 lines := by
  unfold recordLines readLines at h
  cases hbytes : files.readBytes path with
  | error fault => simp [hbytes, Except.mapError] at h
  | ok bytes =>
    cases ht : Utf8.decode bytes with
    | error fault => simp [hbytes, ht, Except.mapError] at h
    | ok t =>
      simp only [hbytes, ht, Except.mapError] at h
      have hlines := Text.hasLines_splitOn t
      exact ⟨_, .file hbytes ht hlines, (Except.ok.inj h).symm.trans (linesOf_eq hlines)⟩

/-- The calls of lines are those of the records on them. -/
theorem foldLines_addCallLine {source : Text} {calls calls' : List (Text × List CallEdge)}
    {lines : List (Nat × Text)} (h : foldLines (addCallLine source) calls lines = .ok calls') :
    ∃ records, List.Forall₂ (IsRecord CallRecord.format) (lines.map (·.2)) records ∧
      calls' = records.foldl setCalls calls := by
  induction lines generalizing calls with
  | nil => exact ⟨[], .nil, (Except.ok.inj h).symm⟩
  | cons line rest ih =>
    rw [foldLines, addCallLine] at h
    cases hrecord : recordOf CallRecord.format source line with
    | error e => simp [hrecord] at h
    | ok r =>
      simp only [hrecord] at h
      obtain ⟨records, hrecords, rfl⟩ := ih h
      exact ⟨r :: records, .cons (recordOf_eq_ok_iff.1 hrecord) hrecords, rfl⟩

/-- Markings that were loaded come from the records in the file. -/
theorem recordsIn_of_given_markings {markings : List (Text × MarkedItem)}
    (h : given loadMarkings files markingsFile = .ok markings) :
    ∃ records, RecordsIn MarkingRecord.format files markingsFile records ∧
      markings = records.foldl addRecord [] := by
  cases markingsFile with
  | none => exact ⟨[], ⟨[], .leftOut, .nil⟩, (Except.ok.inj h).symm⟩
  | some path =>
    obtain ⟨texts, records, htexts, hrecords, rfl⟩ := loadMarkings_eq_ok.1 h
    obtain ⟨lines, hlines, rfl⟩ := givenLines_of_recordLines htexts
    rw [map_textsFrom, List.forall₂_map_left_iff] at hrecords
    exact ⟨records, ⟨lines, hlines, hrecords.imp fun _ _ htakes => recordOf_eq_ok_iff.1 htakes.1⟩,
      rfl⟩

/-- Calls that were loaded come from the records in the file. -/
theorem recordsIn_of_given_calls {calls : List (Text × List CallEdge)}
    (h : given loadCalls files callsFile = .ok calls) :
    ∃ records, RecordsIn CallRecord.format files callsFile records ∧
      calls = records.foldl setCalls [] := by
  cases callsFile with
  | none => exact ⟨[], ⟨[], .leftOut, .nil⟩, (Except.ok.inj h).symm⟩
  | some path =>
    rw [given, loadCalls_eq_bind] at h
    obtain ⟨texts, htexts, h⟩ := bind_eq_ok.1 h
    obtain ⟨lines, hlines, rfl⟩ := givenLines_of_recordLines htexts
    obtain ⟨records, hrecords, rfl⟩ := foldLines_addCallLine h
    rw [map_textsFrom, List.forall₂_map_left_iff] at hrecords
    exact ⟨records, ⟨lines, hlines, hrecords⟩, rfl⟩

/-! ## Rows of the tables -/

section

variable {α : Type} {format : RecordFormat α} {record : Text → Option α} {batch : List (Text × α)}
  {path : Path}
variable {t t' : FileTree} {T T' : Table} {name : Text} {D : Place}

/-- Records have been written to a table, each as its bytes, and all other rows are as before. -/
structure Updates (format : RecordFormat α) (record : Text → Option α) (T T' : Table) : Prop where
  written : ∀ name a, record name = some a → Stores format T' name a
  kept : ∀ key, (∀ name, key = .text name → record name = none) → T'.get? key = T.get? key

/-- Records have been written to the table of a store; if it has no table that it could open, there
are none. -/
def Updated (format : RecordFormat α) (record : Text → Option α) (path : Path) (t t' : FileTree) :
    Prop :=
  match found t path with
  | some T => ∃ T', found t' path = some T' ∧ Updates format record T T'
  | none => found t' path = none ∧ ∀ name, record name = none

/-- A batch has been written to the table of a store; if it has no table that it could open, the
batch is empty. -/
def Wrote (format : RecordFormat α) (batch : List (Text × α)) (path : Path) (t t' : FileTree) :
    Prop :=
  match found t path with
  | some T => ∃ T', found t' path = some T' ∧ tableWith format T batch = .ok T'
  | none => found t' path = none ∧ batch = []

/-- A batch that was put into a table updates its rows. -/
theorem updates_of_tableWith (hnodup : (batch.map (·.1)).Nodup)
    (h : tableWith format T batch = .ok T') :
    Updates format (fun name => Json.lookup? name batch) T T' where
  written name _ ha := stores_of_tableWith h ((lastIn_of_nodup hnodup name).trans ha)
  kept _ hkey :=
    get?_tableWith h fun name hname => (lastIn_of_nodup hnodup name).trans (hkey name hname)

/-- A batch that was written updates the store. -/
theorem updated_of_wrote (hnodup : (batch.map (·.1)).Nodup) (h : Wrote format batch path t t') :
    Updated format (fun name => Json.lookup? name batch) path t t' := by
  unfold Wrote at h
  unfold Updated
  split at h
  · obtain ⟨T', hfound, hwritten⟩ := h
    exact ⟨T', hfound, updates_of_tableWith hnodup hwritten⟩
  · obtain ⟨hnone, rfl⟩ := h
    exact ⟨hnone, fun _ => rfl⟩

/-- What has been written is told by what the store finds before and after. -/
theorem Wrote.congr {t₁ t₁' : FileTree} (h : Wrote format batch path t t')
    (hbefore : found t path = found t₁ path) (hafter : found t₁' path = found t' path) :
    Wrote format batch path t₁ t₁' := by
  unfold Wrote at h ⊢
  rw [← hbefore, hafter]
  exact h

/-- Taking the lock changes no store. -/
theorem found_acquireLock {lock : Path} (hname : IsName name) (hne : name ≠ ".lock")
    (hlock : (acquireLock depstore).run.run w = (.ok lock, w')) :
    found w'.files (depstore.child name) = found w.files (depstore.child name) ∧
      ∃ D, Leads w'.files depstore D := by
  unfold acquireLock at hlock
  simp only [Action.run_bind, Action.run_makeDirectories, Action.run_write] at hlock
  rcases hmake : w.files.makeDirectories depstore.start depstore.parts with ⟨above, _ | fault⟩
  · obtain ⟨D, hD⟩ := leads_of_makeDirectories hmake
    simp only [hmake] at hlock
    cases hwrite : above.write (lockFile depstore) (.bytes []) with
    | error fault =>
      simp only [hwrite] at hlock
      cases (Prod.mk.inj hlock).1
    | ok t' =>
      simp only [hwrite] at hlock
      obtain ⟨-, rfl⟩ := Prod.mk.inj hlock
      have htouches := touches_write hD isName_lock hwrite
      refine ⟨?_, D, hD.of_keeps htouches.keeps⟩
      exact (found_of_touches htouches hne hD hname).trans (found_makeDirectories hname hmake)
  · simp only [hmake] at hlock
    cases (Prod.mk.inj hlock).1

/-- A batch that was put into a store was written. -/
theorem wrote_of_putBatch (hD : Leads w.files depstore D) (hname : IsName name)
    (h : (putBatch (openAt (depstore.child name) format) batch).run.run w = (.ok (), w')) :
    Wrote format batch (depstore.child name) w.files w'.files := by
  unfold Wrote
  cases hfound : found w.files (depstore.child name) with
  | some T =>
    obtain ⟨after, -, hput⟩ := run_putBatch format hD hname hfound batch
    cases hbatch : tableWith format T batch with
    | error e =>
      simp only [hbatch] at hput
      cases h.symm.trans hput.1
    | ok T' =>
      simp only [hbatch] at hput
      obtain ⟨-, rfl⟩ := Prod.mk.inj (h.symm.trans hput.1)
      exact ⟨T', hput.2, hbatch⟩
  | none =>
    cases batch with
    | nil =>
      obtain ⟨-, rfl⟩ := Prod.mk.inj h
      exact ⟨hfound, rfl⟩
    | cons row rest =>
      -- a store that finds nothing cannot be opened
      obtain ⟨s, w₁, hopen, -⟩ := Action.run_bind_eq_ok h
      obtain ⟨T, -, hsome, -⟩ := openAt_eq_ok hopen
      cases hfound.symm.trans hsome

end

/-- An ingest that succeeds has written what it has read, to one table and to the other. -/
theorem wrote_of_run {summary : Summary}
    (hrun : (Ingest.run depstore markingsFile callsFile).run.run w = (.ok summary, w')) :
    ∃ markings calls, given loadMarkings w.files markingsFile = .ok markings ∧
      given loadCalls w.files callsFile = .ok calls ∧ summary = summaryOf markings calls ∧
      Wrote MarkedItem.format markings (depstore.child "marking") w.files w'.files ∧
      Wrote CallEdge.format.list calls (depstore.child "calledge") w.files w'.files := by
  rw [run_eq] at hrun
  obtain ⟨markings, w₁, hmarkings, hrun⟩ := Action.run_bind_eq_ok hrun
  rw [run_loadGiven] at hmarkings
  obtain ⟨hitems, rfl⟩ := Prod.mk.inj hmarkings
  obtain ⟨calls, w₁, hcalls, hrun⟩ := Action.run_bind_eq_ok hrun
  rw [run_loadGiven] at hcalls
  obtain ⟨hrows, rfl⟩ := Prod.mk.inj hcalls
  obtain ⟨lock, w₁, hlock, hrun⟩ := Action.run_bind_eq_ok hrun
  obtain ⟨⟨⟩, w₂, hputMarkings, hrun⟩ := Action.run_bind_eq_ok hrun
  obtain ⟨⟨⟩, w₃, hputCalls, hrun⟩ := Action.run_bind_eq_ok hrun
  obtain ⟨hsummary, hw'⟩ := Prod.mk.inj hrun
  have hfiles : w'.files = w₃.files := by rw [← hw']
  -- the lock and the two tables are entries of one directory, and each step touches its own
  obtain ⟨hmarkings₁, D, hD⟩ := found_acquireLock isName_marking (by decide) hlock
  obtain ⟨hcalls₁, -⟩ := found_acquireLock isName_calledge (by decide) hlock
  have htouches := touches_putBatch hD isName_marking hputMarkings
  have hD₂ := hD.of_keeps htouches.keeps
  have htouches' := touches_putBatch hD₂ isName_calledge hputCalls
  have hmarkings₃ := found_of_touches htouches' (by decide) hD₂ isName_marking
  have hcalls₂ := found_of_touches htouches (by decide) hD isName_calledge
  refine ⟨markings, calls, hitems, hrows, (Except.ok.inj hsummary).symm, ?_, ?_⟩
  · rw [hfiles]
    exact (wrote_of_putBatch hD isName_marking hputMarkings).congr hmarkings₁ hmarkings₃
  · rw [hfiles]
    exact (wrote_of_putBatch hD₂ isName_calledge hputCalls).congr (hcalls₂.trans hcalls₁) rfl

/-- **The effect of an ingest.** After an ingest that succeeds, the table of markings holds for each
name with a line that has a role the bytes of what its lines settle to, the table of calls holds for
each caller the bytes of the calls of its last line, and all other rows of both tables are as
before. The summary counts the names of lines that have a role, the callers, and the calls of all
callers. -/
theorem ingest_effect (depstore : Path) (markingsFile callsFile : Option Path) (w w' : World)
    (summary : Summary)
    (hrun : (Ingest.run depstore markingsFile callsFile).run.run w = (.ok summary, w')) :
    ∃ markings calls, RecordsIn MarkingRecord.format w.files markingsFile markings ∧
      RecordsIn CallRecord.format w.files callsFile calls ∧
      Updated MarkedItem.format (settled markings) (depstore.child "marking") w.files w'.files ∧
      Updated CallEdge.format.list (finalCalls calls) (depstore.child "calledge") w.files w'.files ∧
      summary = {
        markings := ((markings.filter (·.marking.isAnnotated)).map (·.name)).eraseDups.length
        callers := (calls.map (·.caller)).eraseDups.length
        callEdges :=
          ((calls.map (·.caller)).eraseDups.map fun caller =>
            ((finalCalls calls caller).getD []).length).sum } := by
  obtain ⟨items, rows, hitems, hrows, rfl, hmarkings, hcalls⟩ := wrote_of_run hrun
  obtain ⟨markings, hmarkingsIn, rfl⟩ := recordsIn_of_given_markings hitems
  obtain ⟨calls, hcallsIn, rfl⟩ := recordsIn_of_given_calls hrows
  have hnames : ((markings.foldl addRecord []).map (·.1)).Nodup := by
    rw [keys_foldl_addRecord]
    exact nodup_eraseDups _
  have hcallers : ((calls.foldl setCalls []).map (·.1)).Nodup := by
    rw [keys_foldl_setCalls]
    exact nodup_eraseDups _
  have hupdated := updated_of_wrote hnames hmarkings
  have hupdated' := updated_of_wrote hcallers hcalls
  refine ⟨markings, calls, hmarkingsIn, hcallsIn, ?_, ?_, ?_⟩
  · simpa only [lookup?_foldl_addRecord] using hupdated
  · simpa only [lookup?_foldl_setCalls] using hupdated'
  · rw [summaryOf, Summary.mk.injEq]
    refine ⟨?_, ?_, length_flatMap_foldl_setCalls calls⟩
    · rw [← keys_foldl_addRecord, List.length_map]
    · rw [← keys_foldl_setCalls, List.length_map]

/-- A file that marks one name; a file that marks two others, one of them on three lines; and a file
with two lines of one caller. -/
def mixedFiles : FileTree :=
  { nodes := [
      recordFile "p" MarkingRecord.format [markedAt 1 "k" { audited := some "g" }],
      recordFile "m" MarkingRecord.format [
        markedAt 2 "s" { audited := some "g" },
        markedAt 3 "e" { isEntryPoint := true },
        markedAt 4 "s" {},
        markedAt 5 "s" { requiresAudit := some "h", audited := some "i" }],
      recordFile "c" CallRecord.format [callsAt 6 "e" ["x", "y"], callsAt 7 "e" ["s"]]] }

/-- The ingest of the first file. -/
def priorIngest : Except Failure Summary × World :=
  (Ingest.run (pathOf "d") (some (pathOf "p")) none).run.run { files := mixedFiles }

/-- The ingest of the others after it. -/
def mixedIngest : Except Failure Summary × World :=
  (Ingest.run (pathOf "d") (some (pathOf "m")) (some (pathOf "c"))).run.run priorIngest.2

/-- Lines of two names alternate, and the row of a third name stays. -/
theorem ingest_effect_interleaved :
    mixedIngest.1 = .ok ⟨2, 1, 1⟩ ∧ ∃ M M' markings,
      found priorIngest.2.files ((pathOf "d").child "marking") = some M ∧
      M.size = 1 ∧ found mixedIngest.2.files ((pathOf "d").child "marking") = some M' ∧
        M'.size = 3 ∧
      RecordsIn MarkingRecord.format priorIngest.2.files (some (pathOf "m")) markings ∧
      Updates MarkedItem.format (settled markings) M M' := by
  have hvalues : mixedIngest.1 = .ok ⟨2, 1, 1⟩ ∧
      (found priorIngest.2.files ((pathOf "d").child "marking")).map Table.size = some 1 ∧
      (found mixedIngest.2.files ((pathOf "d").child "marking")).map Table.size = some 3 := by
    decide +kernel
  obtain ⟨hok, hbefore, hafter⟩ := hvalues
  obtain ⟨M, hM, hsize⟩ := Option.map_eq_some_iff.1 hbefore
  obtain ⟨M', hM', hsize'⟩ := Option.map_eq_some_iff.1 hafter
  obtain ⟨markings, calls, hmarkings, -, hupdated, -⟩ :=
    ingest_effect (pathOf "d") (some (pathOf "m"))
    (some (pathOf "c")) priorIngest.2 mixedIngest.2 _ (eq_mk_of_fst hok)
  simp only [Updated, hM] at hupdated
  obtain ⟨M'', hM'', hupdates⟩ := hupdated
  obtain rfl := Option.some.inj (hM'.symm.trans hM'')
  exact ⟨hok, M, M', markings, hM, hsize, hM', hsize', hmarkings, hupdates⟩

end Ingest

end CallAudit
