import CallAudit.Proofs.Opening
import CallAudit.Proofs.Requests

/-!
# Writes that fail

A write can fail in several places: a record of the batch has no bytes, the store is closed, the
table cannot be looked at, a key of the batch has no bytes, or the table file cannot be written.
Wherever it fails, nothing of the batch is kept; and if it does not fail, all of it is
(`Store.insertManyIn_cases`). So after a write that has failed the files are as before, and so is
what the store remembers, records and misses alike (`Store.failed_writes_leave_no_trace`). All that
may be different is how the store stands with its table file.
-/

namespace CallAudit

namespace Store

variable {α : Type}

/-- Asking for rows changes how the store stands with its table file and nothing else. -/
theorem exists_session_ask (s : Store α) (t : FileTree) (r : TableRequest)
    (key : Except Failure Unit) :
    ∃ session answer, s.ask t r key = ({ s with session }, answer) := by
  unfold ask
  split
  · exact ⟨s.session, _, rfl⟩
  · split <;> exact ⟨_, _, rfl⟩

theorem exists_session_beginPut (s : Store α) (t : FileTree) :
    ∃ session answer, s.beginPut t = ({ s with session }, answer) := by
  unfold beginPut
  split
  · exact ⟨s.session, _, rfl⟩
  · exact ⟨_, _, rfl⟩

/-- **All or nothing.** A batch fails and nothing of it is remembered, or all of its rows can be
written and all of it is remembered. -/
theorem insertManyIn_cases (s : Store α) (t : FileTree) (batch : List (Text × α)) :
    (∃ session e, s.insertManyIn t batch = ({ s with session }, .error e)) ∨
      s.isOpen = true ∧ (∀ row ∈ batch, CanWrite s.format row) ∧ ∃ session t',
        s.insertManyIn t batch = ({ batch.foldl (fun s row => s.remember row.1 row.2) s with
          session }, .ok t') := by
  unfold insertManyIn
  cases hrows : encodeBatch s.format batch with
  | error e => exact .inl ⟨s.session, e, rfl⟩
  | ok rows =>
    by_cases hopen : s.isOpen = true
    · cases batch with
      | nil =>
        obtain ⟨session, answer, hbegin⟩ := exists_session_beginPut s t
        dsimp only
        rw [if_pos hopen, hbegin]
        cases answer with
        | error e => exact .inl ⟨session, e, rfl⟩
        | ok t' => exact .inr ⟨hopen, by simp, session, t', rfl⟩
      | cons first rest =>
        obtain ⟨session, answer, hask⟩ := exists_session_ask s t .put (checkKey first.1)
        dsimp only
        rw [if_neg (by simp [hopen]), hask]
        cases answer with
        | error e => exact .inl ⟨session, e, rfl⟩
        | ok table =>
          dsimp only
          rw [insertMany_eq_tableWith (s := { s with session }) hopen]
          -- what the table makes of the batch decides, and then whether the file can be written
          cases hbatch : tableWith s.format table (first :: rest) with
          | error e => exact .inl ⟨session, e, rfl⟩
          | ok altered =>
            have hrows := exists_tableWith.1 ⟨altered, hbatch⟩
            have hafter := remember_session (first :: rest) s session
            dsimp only [Except.map]
            rw [hafter]
            split
            · split
              · exact .inl ⟨session, _, rfl⟩
              · exact .inr ⟨hopen, hrows, _, _, rfl⟩
            · exact .inr ⟨hopen, hrows, _, _, rfl⟩
    · refine .inl ⟨s.session, s.closedFailure, ?_⟩
      cases batch with
      | nil => exact if_neg hopen
      | cons first rest => exact if_pos (by simp [hopen])

namespace Access

/-- A request that writes does what its batch does. -/
theorem perform_of_isPut {request : StoreRequest α} (hrequest : IsPut request) (a : Access α) :
    match a.store.insertManyIn a.files (batchOf request) with
    | (store, .error e) => a.perform request = ({ a with store }, .error e)
    | (store, .ok files) => ∃ answer, a.perform request = ({ files, store }, .ok answer) := by
  cases hrequest with
  | insert key value =>
    rw [batchOf, perform, insertIn]
    rcases a.store.insertManyIn a.files [(key, value)] with ⟨store, e | files⟩
    · rfl
    · exact ⟨_, rfl⟩
  | insertMany batch =>
    rw [batchOf, perform]
    rcases a.store.insertManyIn a.files batch with ⟨store, e | files⟩
    · rfl
    · exact ⟨_, rfl⟩

end Access

open Access

/-- **Failed writes leave no trace.** If a request that writes fails, in whatever state the store is
and for whatever reason, then all files, the cached records and the remembered misses are as they
were before. It does fail if the store is closed, or if the key or the record of any row of its
batch has no bytes, wherever the row stands; and if it does not fail, then the store remembers the
last record of each key of the batch. -/
theorem failed_writes_leave_no_trace (a : Access α) (request : StoreRequest α)
    (hrequest : IsPut request) :
    (∀ a' e, a.perform request = (a', .error e) →
      a'.files = a.files ∧ a'.store.cache = a.store.cache ∧ a'.store.misses = a.store.misses ∧
        Same a a' ∧ a'.store.isOpen = a.store.isOpen) ∧
    ((a.store.isOpen = false ∨ ∃ row ∈ batchOf request, ¬ CanWrite a.store.format row) →
      ∃ a' e, a.perform request = (a', .error e)) ∧
    ∀ a' answer, a.perform request = (a', .ok answer) → ∀ key,
      a'.store.known key = ((lastIn key (batchOf request)).map some).or (a.store.known key) := by
  have hperform := perform_of_isPut hrequest a
  rcases insertManyIn_cases a.store a.files (batchOf request) with ⟨session, e, hinsert⟩ |
    ⟨hopen, hrows, session, files, hinsert⟩
  · simp only [hinsert] at hperform
    refine ⟨fun a' e' hfail => ?_, fun _ => ⟨_, e, hperform⟩, fun a' answer hok => ?_⟩
    · obtain ⟨rfl, -⟩ := Prod.mk.inj (hperform.symm.trans hfail)
      exact ⟨rfl, rfl, rfl, ⟨rfl, rfl⟩, rfl⟩
    · cases hperform.symm.trans hok
  · simp only [hinsert] at hperform
    obtain ⟨answer, hperform⟩ := hperform
    refine ⟨fun a' e' hfail => ?_, ?_, fun a' answer' hok key => ?_⟩
    · cases hperform.symm.trans hfail
    · rintro (hclosed | ⟨row, hrow, hbad⟩)
      · rw [hopen] at hclosed
        cases hclosed
      · exact absurd (hrows row hrow) hbad
    · obtain ⟨rfl, -⟩ := Prod.mk.inj (hperform.symm.trans hok)
      exact known_remembered (batchOf request) a.store key

/-- An item to be stored. -/
def entryItem : MarkedItem :=
  { marking := { isEntryPoint := true }, location := { file := "f", line := 1 } }

/-- A store that has written one key and has found another one absent. -/
def warmAccess : Access MarkedItem :=
  (((⟨freshOpening.2.files, freshStore⟩ : Access MarkedItem).perform
    (.insert "k" entryItem)).1.perform (.get "m")).1

/-- A batch with the two keys, one of them twice, and a surrogate as a key between them. -/
def brokenBatch : List (Text × MarkedItem) :=
  [("m", entryItem), ("k", { entryItem with marking := {} }), ([CodePoint.ofNat 0xD800], entryItem),
    ("m", entryItem)]

/-- The batch fails at its third row, and what the store knows of the first two is as before. -/
theorem failed_writes_leave_no_trace_midway :
    ∃ a' e, warmAccess.perform (.insertMany brokenBatch) = (a', .error e) ∧
      a'.files = warmAccess.files ∧
      a'.store.cache = [(("k" : Text), entryItem)] ∧ a'.store.misses = [("m" : Text)] := by
  have hwarm : warmAccess.store.cache = [(("k" : Text), entryItem)] ∧
      warmAccess.store.misses = [("m" : Text)] := by
    decide +kernel
  have hbad : ¬ CanWrite warmAccess.store.format ([CodePoint.ofNat 0xD800], entryItem) :=
    fun h => absurd h.1 (by decide)
  obtain ⟨hkept, hfails, -⟩ :=
    failed_writes_leave_no_trace warmAccess (.insertMany brokenBatch) (.insertMany brokenBatch)
  obtain ⟨a', e, hfail⟩ := hfails (.inr ⟨_, by simp [batchOf, brokenBatch], hbad⟩)
  obtain ⟨hfiles, hcache, hmisses, -⟩ := hkept a' e hfail
  exact ⟨a', e, hfail, hfiles, hcache.trans hwarm.1, hmisses.trans hwarm.2⟩

end Store

end CallAudit
