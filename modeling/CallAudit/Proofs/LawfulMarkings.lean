import CallAudit.Proofs.IngestedAudits

/-!
# The invariant of marking tables

Every marking that a depstore holds has a role, and an entry point has a name without type arguments
(`Ingest.Lawful`). The lines of a markings file are checked one by one, but what is written are
their merged markings: a merged marking has a role since its first part has one, and it is an entry
point only if the name has passed the check on some line (`Ingest.lawful_loadMarkings`). An ingest,
whether or not it succeeds, leaves the table as it was or writes such markings to it
(`Ingest.markings_of_run`), so the invariant holds after any sequence of ingests
(`Ingest.marking_rows_are_lawful`).
-/

namespace CallAudit

theorem Marking.isAnnotated_merge {m : Marking} (h : m.isAnnotated = true) (later : Marking) :
    (m.merge later).isAnnotated = true := by
  obtain ⟨required, audited, isEntryPoint⟩ := m
  obtain ⟨required', audited', isEntryPoint'⟩ := later
  cases required <;> cases audited <;> cases required' <;> cases audited' <;>
    simp_all [isAnnotated, merge]

namespace Ingest

open FileTree Store

variable {depstore : Path} {markingsFile callsFile : Option Path} {files : FileTree} {path : Path}
  {w w' : World}
variable {markings : List (Text × MarkedItem)} {M M' : Table}

/-! ## Markings of a file -/

/-- What a depstore may hold under a name: a marking that has a role, and that is an entry point
only if the name carries no type arguments. -/
structure Lawful (name : Text) (item : MarkedItem) : Prop where
  annotated : item.marking.isAnnotated = true
  plain : item.marking.isEntryPoint = true → openBracket ∉ name

theorem Takes.plain {text : Text} {r : MarkingRecord} (h : Takes text r)
    (hannotated : r.marking.isAnnotated = true) (hentry : r.marking.isEntryPoint = true) :
    openBracket ∉ r.name := by
  have hallowed := h.2
  rw [hannotated, hentry, Bool.true_and, Bool.true_and] at hallowed
  simpa using hallowed

theorem lawful_loadMarkings (h : loadMarkings files path = .ok markings) :
    ∀ row ∈ markings, Lawful row.1 row.2 := by
  refine loadMarkings_induction ?_ ?_ h
  · intro text r htakes hannotated
    exact ⟨hannotated, htakes.plain hannotated⟩
  · intro text r item htakes hannotated hitem
    refine ⟨Marking.isAnnotated_merge hitem.annotated r.marking, fun hentry => ?_⟩
    -- one of the two parts is the entry point, and either has been checked
    rcases Bool.or_eq_true_iff.1 hentry with hentry | hentry
    · exact hitem.plain hentry
    · exact htakes.plain hannotated hentry

/-! ## Rows of a table -/

/-- All rows of a table hold lawful markings. -/
def HoldsLawful (M : Table) : Prop :=
  ∀ row ∈ M.rows, ∃ name item, row.1 = .text name ∧
    readEntry MarkedItem.format row = .ok (name, item) ∧ Lawful name item

/-- Writing lawful markings keeps a table lawful: a row is one of the batch, or it has been
there. -/
theorem holdsLawful_tableWith (hM : HoldsLawful M) (hnodup : (markings.map (·.1)).Nodup)
    (hfits : ∀ row ∈ markings, Json.FitsReader row.2.location.line)
    (hlawful : ∀ row ∈ markings, Lawful row.1 row.2)
    (h : tableWith MarkedItem.format M markings = .ok M') : HoldsLawful M' := by
  rintro ⟨key, cell⟩ hrow
  have hget := Table.get?_eq_some_iff.2 hrow
  have hkept (hsame : M'.get? key = M.get? key) : (key, cell) ∈ M.rows :=
    Table.get?_eq_some_iff.1 (hsame.symm.trans hget)
  by_cases htext : ∃ name, key = .text name
  · obtain ⟨name, rfl⟩ := htext
    have hstored := stores_or_same hnodup h name
    cases hitem : Json.lookup? name markings with
    | none =>
      rw [hitem] at hstored
      exact hM _ (hkept hstored)
    | some item =>
      rw [hitem] at hstored
      obtain ⟨bytes, hbytes, hcell⟩ := hstored
      have hmem := (Json.lookup?_eq_some_iff hnodup).1 hitem
      obtain rfl : cell = .blob bytes := Option.some.inj (hget.symm.trans hcell)
      refine ⟨name, item, rfl, readEntry_eq_ok.2 ⟨?_, ?_⟩, hlawful _ hmem⟩
      · exact TableKey.read_text (exists_tableWith.1 ⟨M', h⟩ _ hmem).1
      · exact decodeCell_of_fits (MarkedItem.faithful 0) (by decide) hbytes
          (not_bad_mem (hfits _ hmem))
  · exact hM _ (hkept (get?_tableWith h fun name hname => absurd ⟨name, hname⟩ htext))

/-- The records that a store reads from a lawful table. -/
theorem HoldsLawful.records {s : Store MarkedItem} (h : HoldsLawful M)
    (hformat : s.format = MarkedItem.format) :
    ∃ records, Access.recordsOf s M = .ok records ∧ records.length = M.size ∧
      ∀ record ∈ records, Lawful record.1 record.2 := by
  rcases Access.recordsOf_cases s M with ⟨records, hrecords, hread⟩ | ⟨key, fault, -, hread⟩
  · rw [hformat] at hread
    have hentries := mapM_eq_ok.1 hread
    refine ⟨records, hrecords, ?_, fun record hrecord => ?_⟩
    · have hlength := congrArg List.length hentries
      rw [List.length_map, List.length_map] at hlength
      exact hlength.symm
    · have hmem : Except.ok record ∈ M.rows.map (readEntry MarkedItem.format) :=
        hentries ▸ List.mem_map_of_mem hrecord
      obtain ⟨row, hrow, hentry⟩ := List.mem_map.1 hmem
      obtain ⟨name, item, -, hitem, hlawful⟩ := h row hrow
      rw [← Except.ok.inj (hitem.symm.trans hentry)]
      exact hlawful
  · rw [hformat] at hread
    obtain ⟨before, row, after, hrows, -, hrow⟩ := mapM_eq_error.1 hread
    obtain ⟨name, item, -, hitem, -⟩ := h row (by simp [hrows])
    cases hitem.symm.trans hrow

/-! ## Ingests -/

/-- Writing a batch touches the entry of its store only, whether or not the store can be opened. -/
theorem touches_putBatch {α : Type} {name : Text} {D : Place} {format : RecordFormat α}
    {batch : List (Text × α)} {r : Except Failure Unit} (hD : Leads w.files depstore D)
    (hname : IsName name)
    (h : (putBatch (openAt (depstore.child name) format) batch).run.run w = (r, w')) :
    Touches w.files w'.files D name := by
  cases hfound : found w.files (depstore.child name) with
  | some T =>
    obtain ⟨after, htouches, hput⟩ := run_putBatch format hD hname hfound batch
    have hafter :
        ∃ r, (putBatch (openAt (depstore.child name) format) batch).run.run w = (r, after) := by
      cases hbatch : tableWith format T batch with
      | error e => exact ⟨_, (hbatch ▸ hput).1⟩
      | ok T' => exact ⟨_, (hbatch ▸ hput).1⟩
    obtain ⟨r', hrun⟩ := hafter
    obtain ⟨-, rfl⟩ := Prod.mk.inj (h.symm.trans hrun)
    exact htouches
  | none =>
    cases batch with
    | nil =>
      obtain ⟨-, rfl⟩ := Prod.mk.inj h
      exact .refl _ _ _
    | cons row rest =>
      -- a store that finds nothing is not opened, so nothing is saved
      rcases hopen : (openAt (depstore.child name) format).run.run w with ⟨e | s, after⟩
      · have hput : (putBatch (openAt (depstore.child name) format) (row :: rest)).run.run w =
            (.error e, after) :=
          Action.run_bind_error hopen _
        obtain ⟨-, rfl⟩ := Prod.mk.inj (h.symm.trans hput)
        exact openAt_frame hD hname hopen
      · obtain ⟨T, -, hfound', -⟩ := openAt_eq_ok hopen
        rw [hfound] at hfound'
        cases hfound'

/-- An ingest leaves the table of markings as it was, or it writes the markings of its file to
it. -/
theorem markings_of_run {r : Except Failure Summary}
    (h : found w.files (depstore.child "marking") = some M)
    (hrun : (Ingest.run depstore markingsFile callsFile).run.run w = (r, w')) :
    ∃ M', found w'.files (depstore.child "marking") = some M' ∧
      (M' = M ∨ ∃ markings, given loadMarkings w.files markingsFile = .ok markings ∧
        tableWith MarkedItem.format M markings = .ok M') := by
  rcases prepared_or_found hrun with ⟨markings, calls, hmarkings, hcalls, lock, w₁,
    hlock⟩ | ⟨-, hkept⟩
  · have hread := run_loadGiven loadMarkings markingsFile w
    have hread' := run_loadGiven loadCalls callsFile w
    rw [hmarkings] at hread
    rw [hcalls] at hread'
    rw [run_eq, Action.run_bind_ok hread, Action.run_bind_ok hread',
      Action.run_bind_ok hlock] at hrun
    obtain ⟨⟨D, hD⟩, hfound⟩ := found_of_acquireLock isName_marking (by decide) h hlock
    obtain ⟨w₂, htouches, hput⟩ := run_putBatch MarkedItem.format hD isName_marking hfound markings
    cases hM : tableWith MarkedItem.format M markings with
    | error e =>
      simp only [hM] at hput
      rw [Action.run_bind_error (x := putBatch (openMarkings depstore) markings) hput.1] at hrun
      obtain ⟨-, rfl⟩ := Prod.mk.inj hrun
      exact ⟨M, hput.2, .inl rfl⟩
    | ok M' =>
      simp only [hM] at hput
      rw [Action.run_bind_ok (x := putBatch (openMarkings depstore) markings) hput.1] at hrun
      -- the calls are written to another table, whether or not this succeeds
      have hafter : ∃ done w₃, (putBatch (openCalls depstore) calls).run.run w₂ = (done, w₃) ∧
          w'.files = w₃.files := by
        rcases hcallsRun : (putBatch (openCalls depstore) calls).run.run w₂ with ⟨e | done, w₃⟩
        · rw [Action.run_bind_error hcallsRun] at hrun
          exact ⟨_, w₃, rfl, by rw [← (Prod.mk.inj hrun).2]⟩
        · rw [Action.run_bind_ok hcallsRun] at hrun
          exact ⟨_, w₃, rfl, by rw [← (Prod.mk.inj hrun).2]⟩
      obtain ⟨done, w₃, hcallsRun, hfiles⟩ := hafter
      have hD₂ := hD.of_keeps htouches.keeps
      have htouches' := touches_putBatch hD₂ isName_calledge hcallsRun
      refine ⟨M', ?_, .inr ⟨markings, hmarkings, hM⟩⟩
      rw [hfiles]
      exact (found_of_touches htouches' (by decide) hD₂ isName_marking).trans hput.2
  · exact ⟨M, hkept _ M isName_marking (by decide) h, .inl rfl⟩

/-- The worlds that ingests into a depstore lead to. At first the depstore has no markings: it may
be missing. Between ingests anything may happen elsewhere in the files. -/
inductive Reached (depstore : Path) : World → Prop
  | empty {w : World} (h : found w.files (depstore.child "marking") = some {}) : Reached depstore w
  | elsewhere {w w' : World} (before : Reached depstore w)
    (same : found w'.files (depstore.child "marking") = found w.files (depstore.child "marking")) :
    Reached depstore w'
  | ingest {w w' : World} {r : Except Failure Summary} (markingsFile callsFile : Option Path)
    (before : Reached depstore w) (run : (Ingest.run depstore markingsFile callsFile).run.run w =
      (r, w')) :
    Reached depstore w'

/-- One ingest keeps the table of markings lawful. -/
theorem holdsLawful_of_run {r : Except Failure Summary} (hM : HoldsLawful M)
    (h : found w.files (depstore.child "marking") = some M)
    (hrun : (Ingest.run depstore markingsFile callsFile).run.run w = (r, w')) :
    ∃ M', found w'.files (depstore.child "marking") = some M' ∧ HoldsLawful M' := by
  obtain ⟨M', hfound, rfl | ⟨markings, hmarkings, hwritten⟩⟩ := markings_of_run h hrun
  · exact ⟨_, hfound, hM⟩
  · have hnodup : (markings.map (·.1)).Nodup :=
      given_induction (P := fun markings => (markings.map (·.1)).Nodup) List.nodup_nil
        (fun _ _ => nodup_loadMarkings) hmarkings
    have hfits : ∀ row ∈ markings, Json.FitsReader row.2.location.line :=
      given_induction (by simp) (fun _ _ => fits_loadMarkings) hmarkings
    have hlawful : ∀ row ∈ markings, Lawful row.1 row.2 :=
      given_induction (by simp) (fun _ _ => lawful_loadMarkings) hmarkings
    exact ⟨M', hfound, holdsLawful_tableWith hM hnodup hfits hlawful hwritten⟩

theorem Reached.holdsLawful (h : Reached depstore w) :
    ∃ M, found w.files (depstore.child "marking") = some M ∧ HoldsLawful M := by
  induction h with
  | empty h => exact ⟨{}, h, by simp [HoldsLawful]⟩
  | elsewhere _ same ih =>
    obtain ⟨M, hfound, hM⟩ := ih
    exact ⟨M, same.trans hfound, hM⟩
  | ingest markingsFile callsFile _ run ih =>
    obtain ⟨M, hfound, hM⟩ := ih
    exact holdsLawful_of_run hM hfound run

/-- **Marking tables are lawful.** After any sequence of ingests into a depstore that was empty at
first, successful or not, every row of the marking table has a text as its key and decodes to a
marked item with at least one role, and if the item is an entry point, the key has no opening
bracket. The store of markings can be opened, and it reads all of these rows. -/
theorem marking_rows_are_lawful (depstore : Path) (w : World) (h : Reached depstore w) :
    ∃ M, found w.files (depstore.child "marking") = some M ∧
      (∀ row ∈ M.rows, ∃ name item, row.1 = .text name ∧
        decodeCell MarkedItem.format row.2 = .ok item ∧
        item.marking.isAnnotated = true ∧ (item.marking.isEntryPoint = true → openBracket ∉ name)) ∧
      ∃ s w' records, (openMarkings depstore).run.run w = (.ok s, w') ∧
        (s.recordsIn w'.files).2 = .ok records ∧ records.length = M.size ∧
        ∀ record ∈ records, record.2.marking.isAnnotated = true ∧
          (record.2.marking.isEntryPoint = true → openBracket ∉ record.1) := by
  obtain ⟨M, hfound, hM⟩ := h.holdsLawful
  refine ⟨M, hfound, fun row hrow => ?_, ?_⟩
  · obtain ⟨name, item, hkey, hitem, hlawful⟩ := hM row hrow
    exact ⟨name, item, hkey, (readEntry_eq_ok.1 hitem).2, hlawful.annotated, hlawful.plain⟩
  · obtain ⟨s, w', hopen⟩ := openAt_of_found hfound MarkedItem.format
    obtain ⟨T, n, hT, hreads, -, session, hs⟩ := openAt_eq_ok hopen
    obtain rfl : M = T := Option.some.inj (hfound.symm.trans hT)
    have hon : (⟨w'.files, s⟩ : Access MarkedItem).On M n := ⟨hreads, by rw [hs]⟩
    obtain ⟨_, -, hrecordsIn⟩ := Access.recordsIn_eq hon
    obtain ⟨records, hrecords, hlength, hlawful⟩ := hM.records (s := s) (by rw [hs])
    refine ⟨s, w', records, hopen, ?_, hlength, fun record hrecord => ?_⟩
    · exact (congrArg Prod.snd hrecordsIn).trans hrecords
    · exact ⟨(hlawful record hrecord).annotated, (hlawful record hrecord).plain⟩

/-- A markings file with a plain entry point, a definition whose instance is marked on two lines,
and a line without a role; and another file that marks an instance as an entry point. -/
def roleFiles : FileTree :=
  { nodes := [
      recordFile "m" MarkingRecord.format [
        markedAt 1 "m" { isEntryPoint := true },
        markedAt 2 "s<>" { audited := some "g" },
        markedAt 3 "s<>" { requiresAudit := some "g" },
        markedAt 4 "n" {}],
      recordFile "b" MarkingRecord.format [markedAt 5 "s<>" { isEntryPoint := true }]] }

/-- The ingest of the first file. -/
def goodIngest : Except Failure Summary × World :=
  (Ingest.run (pathOf "d") (some (pathOf "m")) none).run.run { files := roleFiles }

/-- The ingest of the second file after that. -/
def badIngest : Except Failure Summary × World :=
  (Ingest.run (pathOf "d") (some (pathOf "b")) none).run.run goodIngest.2

/-- The second ingest fails, and the rows of the first one are still lawful. -/
theorem marking_rows_are_lawful_refused :
    goodIngest.1 = .ok ⟨2, 0, 0⟩ ∧ badIngest.1.isOk = false ∧
      ∃ s w' records, (openMarkings (pathOf "d")).run.run badIngest.2 = (.ok s, w') ∧
        (s.recordsIn w'.files).2 = .ok records ∧ records.length = 2 ∧
        ∀ record ∈ records, record.2.marking.isAnnotated = true ∧
          (record.2.marking.isEntryPoint = true → openBracket ∉ record.1) := by
  have hruns : goodIngest.1 = .ok ⟨2, 0, 0⟩ ∧ badIngest.1.isOk = false ∧
      found roleFiles ((pathOf "d").child "marking") = some {} ∧
      (found badIngest.2.files ((pathOf "d").child "marking")).map Table.size = some 2 := by
    decide +kernel
  obtain ⟨hgood, hbad, hempty, hsize⟩ := hruns
  have hfirst : goodIngest = (goodIngest.1, goodIngest.2) := Prod.mk.eta.symm
  have hsecond : badIngest = (badIngest.1, badIngest.2) := Prod.mk.eta.symm
  have hreached : Reached (pathOf "d") badIngest.2 :=
    .ingest (some (pathOf "b")) none (.ingest (some (pathOf "m")) none (.empty hempty) hfirst)
      hsecond
  obtain ⟨M, hfound, -, s, w', records, hopen, hrecords, hlength, hlawful⟩ :=
    marking_rows_are_lawful (pathOf "d") badIngest.2 hreached
  rw [hfound, Option.map_some] at hsize
  exact ⟨hgood, hbad, s, w', records, hopen, hrecords,
    hlength.trans (Option.some.inj hsize), hlawful⟩

end Ingest

end CallAudit
