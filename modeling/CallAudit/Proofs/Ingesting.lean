import CallAudit.Ingest.Run
import CallAudit.Proofs.Opening

/-!
# What an ingest does to the tables

An ingest writes two tables one after the other. As far as the tables go, it comes down to four
conditions (`Ingest.Prepared.run`): both files can be read, the lock can be taken, the markings can
be written, and the calls can be written. If it fails before the markings are written, both tables
are as they were. If the calls cannot be written, because a caller or a callee holds a surrogate
that passes the checks of a record and has no bytes, the markings stay written
(`Ingest.failed_ingest`).
-/

namespace CallAudit

open FileTree

namespace Store

variable {α : Type} {d : Path} {D : Place} {name : Text} {format : RecordFormat α} {T T' : Table}
  {w w' : World}

/-! ## Opening and saving -/

/-- A table that can be found lies in a directory that can be created. -/
theorem leads_of_found (hname : IsName name) (h : found w.files (d.child name) = some T) :
    ∃ t D, w.files.makeDirectories d.start d.parts = (t, none) ∧ Leads t d D := by
  unfold found at h
  rcases hmake : w.files.makeDirectories (d.child name).start (d.child name).parts with
    ⟨t, _ | fault⟩
  · obtain ⟨above, habove, -⟩ := makeDirectories_child hname hmake
    obtain ⟨D, hD⟩ := leads_of_makeDirectories habove
    exact ⟨above, D, habove, hD⟩
  · simp [hmake] at h

/-- Creating the directory of a store does not change what the store finds. -/
theorem found_of_makeDirectories {t : FileTree} (hname : IsName name)
    (hmake : w.files.makeDirectories d.start d.parts = (t, none))
    (h : found w.files (d.child name) = some T) : found t (d.child name) = some T := by
  unfold found at h ⊢
  rcases hchild : w.files.makeDirectories (d.child name).start (d.child name).parts with
    ⟨t', _ | fault⟩
  · obtain ⟨above, habove, hfrom⟩ := makeDirectories_child hname hchild
    obtain rfl : above = t := (Prod.mk.inj (habove.symm.trans hmake)).1
    rw [hfrom]
    rw [hchild] at h
    exact h
  · simp [hchild] at h

/-- Creating the directory of a store does not bring up a table either. -/
theorem found_makeDirectories {t above : FileTree} (hname : IsName name)
    (hmake : t.makeDirectories d.start d.parts = (above, none)) :
    found above (d.child name) = found t (d.child name) := by
  apply Option.ext
  intro T
  constructor
  · intro h
    unfold found at h ⊢
    rcases hchild : above.makeDirectories (d.child name).start (d.child name).parts with
      ⟨t', _ | fault⟩
    · rw [hchild] at h
      rw [makeDirectories_child_of_above hname hmake hchild]
      exact h
    · simp [hchild] at h
  · intro h
    have hw : found ({ files := t } : World).files (d.child name) = some T := h
    exact found_of_makeDirectories hname hmake hw

/-- A batch is written to the table that a store finds, or the table stays as it is. -/
theorem run_openAt_save (format : RecordFormat α) (hD : Leads w.files d D) (hname : IsName name)
    (h : found w.files (d.child name) = some T) (batch : List (Text × α)) :
    ∃ w', Touches w.files w'.files D name ∧
      match tableWith format T batch with
      | .error e =>
        (openAt (d.child name) format >>= fun s => s.save batch).run.run w = (.error e, w') ∧
          found w'.files (d.child name) = some T
      | .ok T' =>
        (∃ s, (openAt (d.child name) format >>= fun s => s.save batch).run.run w = (.ok s, w')) ∧
          found w'.files (d.child name) = some T' := by
  obtain ⟨s, w₁, hopen⟩ := openAt_of_found h format
  have htouches := openAt_frame hD hname hopen
  obtain ⟨T₀, n, hfound, hreads, -, session, rfl⟩ := openAt_eq_ok hopen
  obtain rfl : T = T₀ := Option.some.inj (h.symm.trans hfound)
  rw [Action.run_bind, hopen]
  cases hbatch : tableWith format T batch with
  | error e =>
    exact ⟨w₁, htouches, run_save_error hreads rfl hbatch, found_of_tableContent hreads.content⟩
  | ok T' =>
    obtain ⟨s', w₂, hsave, hfound', hfiles⟩ := run_save_ok hreads rfl hbatch
    refine ⟨w₂, ?_, ⟨s', hsave⟩, hfound'⟩
    rcases hfiles with hfiles | ⟨content, hwrite⟩
    · rw [hfiles]
      exact htouches
    · exact htouches.trans (touches_write_tableFile (hD.of_keeps htouches.keeps) hname hwrite)

end Store

namespace Ingest

open Store

variable {depstore : Path} {markingsFile callsFile : Option Path} {w w' w₁ : World} {D : Place}
variable {markings : List (Text × MarkedItem)} {calls : List (Text × List CallEdge)} {M C : Table}

/-- The tables of a depstore hold these rows. -/
structure Holds (depstore : Path) (t : FileTree) (M C : Table) : Prop where
  markings : found t (depstore.child "marking") = some M
  calls : found t (depstore.child "calledge") = some C

/-- The records of a file that may be left out. -/
def given {α : Type} (load : FileTree → Path → Except Failure (List α)) (t : FileTree)
    (path : Option Path) : Except Failure (List α) :=
  match path with
  | none => .ok []
  | some p => load t p

theorem run_loadGiven {α : Type} (load : FileTree → Path → Except Failure (List α))
    (path : Option Path) (w : World) :
    (loadGiven load path).run.run w = (given load w.files path, w) := by
  unfold loadGiven given
  cases path with
  | none => rfl
  | some p => simp only [Action.run_bind, Action.run_files, Action.run_ofExcept]

/-- Taking the lock does not change a table, whether or not it succeeds. -/
theorem found_of_acquireLock {name : Text} {T : Table} (hname : IsName name) (hne : name ≠ ".lock")
    (h : found w.files (depstore.child name) = some T) {r : Except Failure Path}
    (hlock : (acquireLock depstore).run.run w = (r, w')) :
    (∃ D, Leads w'.files depstore D) ∧ found w'.files (depstore.child name) = some T := by
  obtain ⟨t, D, hmake, hD⟩ := leads_of_found hname h
  have hfound := found_of_makeDirectories hname hmake h
  unfold acquireLock at hlock
  simp only [Action.run_bind, Action.run_makeDirectories, hmake, Action.run_write] at hlock
  cases hwrite : t.write (lockFile depstore) (.bytes []) with
  | error fault =>
    simp only [hwrite] at hlock
    obtain ⟨-, rfl⟩ := Prod.mk.inj hlock
    exact ⟨⟨D, hD⟩, hfound⟩
  | ok t' =>
    simp only [hwrite] at hlock
    obtain ⟨-, rfl⟩ := Prod.mk.inj hlock
    have htouches := touches_write hD isName_lock hwrite
    exact ⟨⟨D, hD.of_keeps htouches.keeps⟩, (found_of_touches htouches hne hD hname).trans hfound⟩

theorem holds_of_acquireLock (h : Holds depstore w.files M C) {r : Except Failure Path}
    (hlock : (acquireLock depstore).run.run w = (r, w')) :
    ∃ D, Leads w'.files depstore D ∧ Holds depstore w'.files M C := by
  obtain ⟨⟨D, hD⟩, hmarkings⟩ := found_of_acquireLock isName_marking (by decide) h.markings hlock
  obtain ⟨-, hcalls⟩ := found_of_acquireLock isName_calledge (by decide) h.calls hlock
  exact ⟨D, hD, hmarkings, hcalls⟩

/-- Writes a batch to a store that is opened for it; nothing is opened for an empty one. -/
def putBatch {α : Type} (opening : Action (Store α)) (batch : List (Text × α)) : Action Unit :=
  unless batch.isEmpty do
    let store ← opening
    let _ ← store.save batch

/-- The summary of what has been read. -/
def summaryOf (markings : List (Text × MarkedItem)) (calls : List (Text × List CallEdge)) :
    Summary :=
  { markings := markings.length
    callers := calls.length
    callEdges := (calls.flatMap fun (_, edges) => edges).length }

theorem run_eq (depstore : Path) (markingsFile callsFile : Option Path) :
    run depstore markingsFile callsFile = (do
      let markings ← loadGiven loadMarkings markingsFile
      let calls ← loadGiven loadCalls callsFile
      let _ ← acquireLock depstore
      putBatch (openMarkings depstore) markings
      putBatch (openCalls depstore) calls
      Action.log loggerName 20 ("ingested " ++ (summaryOf markings calls).shown depstore)
      return summaryOf markings calls) := by
  unfold run putBatch
  refine bind_congr fun markings => bind_congr fun calls => bind_congr fun _ => ?_
  cases markings.isEmpty <;> cases calls.isEmpty <;>
    simp only [if_true, if_false, pure_bind, bind_assoc, Bool.false_eq_true] <;> rfl

/-- A batch is written to the table that its store finds, or the table stays as it is. -/
theorem run_putBatch {α : Type} {name : Text} {T : Table} (format : RecordFormat α)
    (hD : Leads w.files depstore D) (hname : IsName name)
    (h : found w.files (depstore.child name) = some T) (batch : List (Text × α)) :
    ∃ w', Touches w.files w'.files D name ∧
      match tableWith format T batch with
      | .error e =>
        (putBatch (openAt (depstore.child name) format) batch).run.run w = (.error e, w') ∧
          found w'.files (depstore.child name) = some T
      | .ok T' => (putBatch (openAt (depstore.child name) format) batch).run.run w = (.ok (), w') ∧
          found w'.files (depstore.child name) = some T' := by
  cases batch with
  | nil => exact ⟨w, .refl _ _ _, rfl, h⟩
  | cons row rest =>
    obtain ⟨w', htouches, hsave⟩ := run_openAt_save format hD hname h (row :: rest)
    -- only the outcome of saving is used, not the store
    have hput : putBatch (openAt (depstore.child name) format) (row :: rest) =
        (openAt (depstore.child name) format >>= fun s => s.save (row :: rest)) >>= fun _ =>
          pure () := by
      rw [bind_assoc]
      rfl
    refine ⟨w', htouches, ?_⟩
    rw [hput]
    cases hbatch : tableWith format T (row :: rest) with
    | error e =>
      simp only [hbatch] at hsave ⊢
      exact ⟨Action.run_bind_error hsave.1 _, hsave.2⟩
    | ok T' =>
      simp only [hbatch] at hsave ⊢
      obtain ⟨⟨s, hsave⟩, hfound⟩ := hsave
      exact ⟨Action.run_bind_ok hsave _, hfound⟩

/-- Both files can be read, and the lock can be taken. -/
def Prepared (depstore : Path) (markingsFile callsFile : Option Path) (w : World)
    (markings : List (Text × MarkedItem)) (calls : List (Text × List CallEdge)) : Prop :=
  given loadMarkings w.files markingsFile = .ok markings ∧
    given loadCalls w.files callsFile = .ok calls ∧
    ∃ lock w₁, (acquireLock depstore).run.run w = (.ok lock, w₁)

/-- Where files can be read and the lock can be taken, the tables decide. -/
theorem Prepared.run (hprepared : Prepared depstore markingsFile callsFile w markings calls)
    (h : Holds depstore w.files M C) :
    ∃ w',
      match tableWith MarkedItem.format M markings, tableWith CallEdge.format.list C calls with
      | .error e, _ => (run depstore markingsFile callsFile).run.run w = (.error e, w') ∧
          Holds depstore w'.files M C
      | .ok M', .error e => (run depstore markingsFile callsFile).run.run w = (.error e, w') ∧
          Holds depstore w'.files M' C
      | .ok M', .ok C' =>
        (run depstore markingsFile callsFile).run.run w = (.ok (summaryOf markings calls), w') ∧
          Holds depstore w'.files M' C' := by
  obtain ⟨hmarkings, hcalls, lock, w₁, hlock⟩ := hprepared
  obtain ⟨D, hD, hholds⟩ := holds_of_acquireLock h hlock
  obtain ⟨w₂, htouches, hput⟩ :=
    run_putBatch MarkedItem.format hD isName_marking hholds.markings markings
  have hD₂ := hD.of_keeps htouches.keeps
  -- the two tables lie in different entries of the depstore, so writing one leaves the other
  have hcalls₂ : found w₂.files (depstore.child "calledge") = some C :=
    (found_of_touches htouches (by decide) hD isName_calledge).trans hholds.calls
  obtain ⟨w₃, htouches', hput'⟩ :=
    run_putBatch CallEdge.format.list hD₂ isName_calledge hcalls₂ calls
  have hread := run_loadGiven loadMarkings markingsFile w
  have hread' := run_loadGiven loadCalls callsFile w
  rw [hmarkings] at hread
  rw [hcalls] at hread'
  rw [run_eq, Action.run_bind_ok hread, Action.run_bind_ok hread', Action.run_bind_ok hlock]
  cases hM : tableWith MarkedItem.format M markings with
  | error e =>
    simp only [hM] at hput
    exact ⟨w₂, Action.run_bind_error hput.1 _, hput.2, hcalls₂⟩
  | ok M' =>
    simp only [hM] at hput
    have hmarkings₃ : found w₃.files (depstore.child "marking") = some M' :=
      (found_of_touches htouches' (by decide) hD₂ isName_marking).trans hput.2
    rw [Action.run_bind_ok (x := putBatch (openMarkings depstore) markings) hput.1]
    cases hC : tableWith CallEdge.format.list C calls with
    | error e =>
      simp only [hC] at hput'
      exact ⟨w₃, Action.run_bind_error hput'.1 _, hmarkings₃, hput'.2⟩
    | ok C' =>
      simp only [hC] at hput'
      rw [Action.run_bind_ok (x := putBatch (openCalls depstore) calls) hput'.1]
      exact ⟨_, rfl, hmarkings₃, hput'.2⟩

theorem Prepared.unique {markings' : List (Text × MarkedItem)}
    {calls' : List (Text × List CallEdge)}
    (h : Prepared depstore markingsFile callsFile w markings calls)
    (h' : Prepared depstore markingsFile callsFile w markings' calls') :
    markings' = markings ∧ calls' = calls :=
  ⟨Except.ok.inj (h'.1.symm.trans h.1), Except.ok.inj (h'.2.1.symm.trans h.2.1)⟩

/-- Where a file cannot be read or the lock cannot be taken, an ingest fails and the tables stay as
they are. -/
theorem prepared_or_found {r : Except Failure Summary}
    (hrun : (Ingest.run depstore markingsFile callsFile).run.run w = (r, w')) :
    (∃ markings calls, Prepared depstore markingsFile callsFile w markings calls) ∨
      (∃ e, r = .error e) ∧ ∀ name T, IsName name → name ≠ ".lock" →
        found w.files (depstore.child name) = some T →
          found w'.files (depstore.child name) = some T := by
  rw [run_eq, Action.run_bind, run_loadGiven] at hrun
  cases hmarkings : given loadMarkings w.files markingsFile with
  | error e =>
    simp only [hmarkings] at hrun
    obtain ⟨rfl, rfl⟩ := Prod.mk.inj hrun
    exact .inr ⟨⟨e, rfl⟩, fun _ _ _ _ h => h⟩
  | ok markings =>
    simp only [hmarkings] at hrun
    rw [Action.run_bind, run_loadGiven] at hrun
    cases hcalls : given loadCalls w.files callsFile with
    | error e =>
      simp only [hcalls] at hrun
      obtain ⟨rfl, rfl⟩ := Prod.mk.inj hrun
      exact .inr ⟨⟨e, rfl⟩, fun _ _ _ _ h => h⟩
    | ok calls =>
      simp only [hcalls] at hrun
      rcases hlock : (acquireLock depstore).run.run w with ⟨e | lock, w₁⟩
      · rw [Action.run_bind_error hlock] at hrun
        obtain ⟨rfl, rfl⟩ := Prod.mk.inj hrun
        exact .inr ⟨⟨e, rfl⟩, fun _ _ hname hne h => (found_of_acquireLock hname hne h hlock).2⟩
      · exact .inl ⟨markings, calls, hmarkings, hcalls, lock, w₁, hlock⟩

theorem prepared_or {r : Except Failure Summary}
    (hrun : (Ingest.run depstore markingsFile callsFile).run.run w = (r, w')) :
    (∃ markings calls, Prepared depstore markingsFile callsFile w markings calls) ∨
      (∃ e, r = .error e) ∧ ∀ M C, Holds depstore w.files M C → Holds depstore w'.files M C := by
  refine (prepared_or_found hrun).imp_right fun hfailed => ⟨hfailed.1, fun M C h => ⟨?_, ?_⟩⟩
  · exact hfailed.2 _ M isName_marking (by decide) h.markings
  · exact hfailed.2 _ C isName_calledge (by decide) h.calls

/-- An ingest that succeeds has written what it has read. -/
theorem run_eq_ok {summary : Summary} (h : Holds depstore w.files M C)
    (hrun : (Ingest.run depstore markingsFile callsFile).run.run w = (.ok summary, w')) :
    ∃ markings calls M' C', Prepared depstore markingsFile callsFile w markings calls ∧
      tableWith MarkedItem.format M markings = .ok M' ∧
        tableWith CallEdge.format.list C calls = .ok C' ∧
      Holds depstore w'.files M' C' := by
  obtain ⟨markings, calls, hprepared⟩ := (prepared_or hrun).resolve_right (by simp)
  obtain ⟨w₁, hcases⟩ := hprepared.run h
  cases hM : tableWith MarkedItem.format M markings with
  | error e =>
    simp only [hM] at hcases
    cases hrun.symm.trans hcases.1
  | ok M' =>
    cases hC : tableWith CallEdge.format.list C calls with
    | error e =>
      simp only [hM, hC] at hcases
      cases hrun.symm.trans hcases.1
    | ok C' =>
      simp only [hM, hC] at hcases
      obtain ⟨-, rfl⟩ := Prod.mk.inj (hrun.symm.trans hcases.1)
      exact ⟨markings, calls, M', C', hprepared, hM, hC, hcases.2⟩

/-- **Failed ingests.** An ingest that fails leaves the table of calls as it was. It leaves the
table of markings as it was too, with one exception: the files can be read and the lock can be
taken, all markings can be written, and a caller or its edges hold a surrogate. Then the markings
have been written. -/
theorem failed_ingest (depstore : Path) (markingsFile callsFile : Option Path) (w w' : World)
    (e : Failure) (M C : Table) (h : Holds depstore w.files M C)
    (hfail : (Ingest.run depstore markingsFile callsFile).run.run w = (.error e, w')) :
    (Holds depstore w'.files M C ∧
      ∀ markings calls, Prepared depstore markingsFile callsFile w markings calls →
        ∃ row ∈ markings, ¬ CanWrite MarkedItem.format row) ∨
    ∃ markings calls M', Prepared depstore markingsFile callsFile w markings calls ∧
      tableWith MarkedItem.format M markings = .ok M' ∧ Holds depstore w'.files M' C ∧
      (∀ row ∈ markings, CanWrite MarkedItem.format row) ∧
      ∃ row ∈ calls, ¬ CanWrite CallEdge.format.list row := by
  by_cases hnone : ∀ markings calls, ¬ Prepared depstore markingsFile callsFile w markings calls
  · have hkept :=
      (prepared_or hfail).resolve_left fun ⟨markings, calls, hp⟩ => hnone markings calls hp
    exact .inl ⟨hkept.2 M C h, fun markings calls hp => absurd hp (hnone markings calls)⟩
  · push Not at hnone
    obtain ⟨markings, calls, hprepared⟩ := hnone
    obtain ⟨w₁, hrun⟩ := hprepared.run h
    cases hM : tableWith MarkedItem.format M markings with
    | error e' =>
      simp only [hM] at hrun
      obtain ⟨-, rfl⟩ := Prod.mk.inj (hfail.symm.trans hrun.1)
      refine .inl ⟨hrun.2, fun markings' calls' hprepared' => ?_⟩
      rw [(hprepared.unique hprepared').1]
      exact tableWith_eq_error.1 ⟨e', hM⟩
    | ok M' =>
      cases hC : tableWith CallEdge.format.list C calls with
      | error e' =>
        simp only [hM, hC] at hrun
        obtain ⟨-, rfl⟩ := Prod.mk.inj (hfail.symm.trans hrun.1)
        exact .inr ⟨markings, calls, M', hprepared, hM, hrun.2, exists_tableWith.1 ⟨M', hM⟩,
          tableWith_eq_error.1 ⟨e', hC⟩⟩
      | ok C' =>
        simp only [hM, hC] at hrun
        cases hfail.symm.trans hrun.1

/-- A path of one name. -/
def pathOf (name : Text) : Path := { start := .relative, parts := [name] }

/-- A file with a text in it. -/
def fileOf (name content : Text) : Place × FileNode :=
  ([name], .file (.bytes (content.flatMap Utf8.encodePoint)))

/-- A line that holds a record. -/
def lineOf {α : Type} (format : RecordFormat α) (a : α) : Text :=
  Json.compact .ascii (format.toJson a)

/-- A file with a record on each line. -/
def recordFile {α : Type} (name : Text) (format : RecordFormat α) (records : List α) :
    Place × FileNode :=
  fileOf name (Text.join "\n" (records.map (lineOf format)))

/-- A marking at a line of the file `f`. -/
def markedAt (line : Int) (name : Text) (marking : Marking) : MarkingRecord :=
  { name, marking, location := { file := "f", line } }

/-- A caller with its calls at a line of the file `f`. -/
def callsAt (line : Int) (caller : Text) (callees : List Text) : CallRecord :=
  { caller, edges := callees.map fun callee => { callee, location := { file := "f", line } } }

/-- A good markings file, and a call-edges file with a callee that is a surrogate. -/
def surrogateFiles : FileTree :=
  { nodes := [
      recordFile "m" MarkingRecord.format [markedAt 1 "sign" { audited := some "g" }],
      recordFile "c" CallRecord.format [callsAt 2 "main" [[CodePoint.ofNat 0xd800]]]] }

/-- The ingest of these files. -/
def surrogateIngest : Except Failure Summary × World :=
  (Ingest.run (pathOf "d") (some (pathOf "m")) (some (pathOf "c"))).run.run
    { files := surrogateFiles }

/-- The marking has been written when the call cannot be. -/
theorem failed_ingest_halfway :
    surrogateIngest.1 = .error .unencodableRecord ∧ Holds (pathOf "d") surrogateFiles {} {} ∧
      ∃ M', Holds (pathOf "d") surrogateIngest.2.files M' {} ∧ M'.size = 1 := by
  have hholds : Holds (pathOf "d") surrogateFiles {} {} := ⟨by decide +kernel, by decide +kernel⟩
  have hafter : surrogateIngest.1 = .error .unencodableRecord ∧
      (found surrogateIngest.2.files ((pathOf "d").child "marking")).map Table.size = some 1 := by
    decide +kernel
  obtain ⟨hfail, hsize⟩ := hafter
  have hrun : surrogateIngest = (.error .unencodableRecord, surrogateIngest.2) :=
    eq_mk_of_fst hfail
  refine ⟨hfail, hholds, ?_⟩
  generalize surrogateIngest.2 = after at hsize hrun ⊢
  rcases failed_ingest (pathOf "d") (some (pathOf "m")) (some (pathOf "c"))
    { files := surrogateFiles } after
    .unencodableRecord {} {} hholds hrun with ⟨hunchanged, -⟩ | ⟨-, -, M', -, -, hholds', -⟩
  · rw [hunchanged.markings, Option.map_some] at hsize
    exact absurd (Option.some.inj hsize) (by decide)
  · rw [hholds'.markings, Option.map_some] at hsize
    exact ⟨M', hholds', Option.some.inj hsize⟩

end Ingest

end CallAudit
