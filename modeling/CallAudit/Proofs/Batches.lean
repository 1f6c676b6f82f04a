import CallAudit.Proofs.Results
import CallAudit.Proofs.Sessions
import CallAudit.Proofs.StoredRecords

/-!
# Batches and what a store remembers

A batch is written to a table as a whole (`Store.tableWith`), which succeeds if none of its texts
holds a surrogate. Of several records under one key the last one counts (`Store.lastIn`), both in
the table (`Store.get?_tableWith`) and in what the store remembers of the batch
(`Store.known_remembered`).
-/

namespace CallAudit

theorem Json.lookup?_append {α : Type} (name : Text) (fields more : List (Text × α)) :
    lookup? name (fields ++ more) = (lookup? name fields).or (lookup? name more) := by
  induction fields with
  | nil => rfl
  | cons field rest ih =>
    rw [List.cons_append, lookup?, lookup?]
    split
    · rfl
    · exact ih

namespace Store

variable {α : Type} {format : RecordFormat α} {s : Store α} {T T' : Table} {batch : List (Text × α)}

/-- The table after a batch has been written to it. -/
def tableWith (format : RecordFormat α) (T : Table) (batch : List (Text × α)) :
    Except Failure Table :=
  encodeBatch format batch >>= putAll T

/-- Inserting a batch puts its rows into the table and remembers its records. -/
theorem insertMany_eq_tableWith (hopen : s.isOpen = true) (T : Table) (batch : List (Text × α)) :
    s.insertMany T batch =
      (tableWith s.format T batch).map fun T' =>
        (batch.foldl (fun s row => s.remember row.1 row.2) s, T') := by
  unfold insertMany writeBatch tableWith
  cases encodeBatch s.format batch with
  | error e => rfl
  | ok rows =>
    dsimp only [bind, Except.bind]
    rw [if_pos hopen]
    cases putAll T rows <;> rfl

/-! ## Batches that can be written -/

/-- A row can be written if neither its key nor its record holds a surrogate. -/
def CanWrite (format : RecordFormat α) (row : Text × α) : Prop :=
  Text.isScalar row.1 = true ∧ Text.isScalar (format.toStored row.2) = true

/-- Rows can be put into a table if and only if their keys consist of scalar values. -/
theorem exists_putAll {rows : List (Text × List UInt8)} :
    (∃ T', putAll T rows = .ok T') ↔ ∀ row ∈ rows, Text.isScalar row.1 = true := by
  induction rows generalizing T with
  | nil => simp [putAll]
  | cons row rest ih =>
    rw [putAll, List.forall_mem_cons, ← ih (T := T.put (.text row.1) (.blob row.2))]
    cases hkey : Utf8.encode row.1 with
    | error fault =>
      have hnot : ¬ Text.isScalar row.1 = true := fun hscalar => by
        rw [Utf8.encode_eq_ok.2 ⟨hscalar, rfl⟩] at hkey
        cases hkey
      simp [hnot]
    | ok bytes => simp [(Utf8.encode_eq_ok.1 hkey).1]

/-- A batch has bytes if and only if its records are stored as scalar values. -/
theorem exists_encodeBatch {batch : List (Text × α)} :
    (∃ rows, encodeBatch format batch = .ok rows) ↔
      ∀ row ∈ batch, Text.isScalar (format.toStored row.2) = true := by
  induction batch with
  | nil => simp [encodeBatch]
  | cons row rest ih =>
    rw [List.forall_mem_cons, ← ih]
    constructor
    · rintro ⟨rows, h⟩
      obtain ⟨bytes, more, hbytes, hmore, -⟩ := encodeBatch_cons_eq_ok h
      exact ⟨isScalar_of_encodeRecord hbytes, more, hmore⟩
    · rintro ⟨hscalar, more, hmore⟩
      obtain ⟨bytes, hbytes⟩ := exists_encodeRecord hscalar
      exact ⟨(row.1, bytes) :: more, by simp [encodeBatch, hbytes, hmore]⟩

theorem keys_of_encodeBatch {batch : List (Text × α)} {rows : List (Text × List UInt8)}
    (h : encodeBatch format batch = .ok rows) : rows.map (·.1) = batch.map (·.1) := by
  induction batch generalizing rows with
  | nil => rw [← Except.ok.inj h]; rfl
  | cons row rest ih =>
    obtain ⟨bytes, more, -, hmore, rfl⟩ := encodeBatch_cons_eq_ok h
    rw [List.map_cons, List.map_cons, ih hmore]

/-- A batch can be written if each of its rows can. -/
theorem exists_tableWith {batch : List (Text × α)} :
    (∃ T', tableWith format T batch = .ok T') ↔ ∀ row ∈ batch, CanWrite format row := by
  unfold tableWith
  constructor
  · rintro ⟨T', h⟩
    obtain ⟨rows, hrows, hput⟩ := bind_eq_ok.1 h
    have hkeys := exists_putAll.1 ⟨T', hput⟩
    have hrecords := exists_encodeBatch.1 ⟨rows, hrows⟩
    intro row hrow
    refine ⟨?_, hrecords row hrow⟩
    have hkey : row.1 ∈ rows.map (·.1) := keys_of_encodeBatch hrows ▸ List.mem_map_of_mem hrow
    obtain ⟨encoded, hencoded, heq⟩ := List.mem_map.1 hkey
    exact heq ▸ hkeys encoded hencoded
  · intro h
    obtain ⟨rows, hrows⟩ := exists_encodeBatch.2 fun row hrow => (h row hrow).2
    have hkeys : ∀ row ∈ rows, Text.isScalar row.1 = true := by
      intro encoded hencoded
      have hkey : encoded.1 ∈ batch.map (·.1) :=
        keys_of_encodeBatch hrows ▸ List.mem_map_of_mem hencoded
      obtain ⟨row, hrow, heq⟩ := List.mem_map.1 hkey
      exact heq ▸ (h row hrow).1
    obtain ⟨T', hput⟩ := exists_putAll (T := T).2 hkeys
    exact ⟨T', bind_eq_ok.2 ⟨rows, hrows, hput⟩⟩

/-- A batch cannot be written if one of its rows cannot. -/
theorem tableWith_eq_error {batch : List (Text × α)} :
    (∃ e, tableWith format T batch = .error e) ↔ ∃ row ∈ batch, ¬ CanWrite format row := by
  have hok := @exists_tableWith _ format T batch
  cases h : tableWith format T batch with
  | error e =>
    simp only [h, reduceCtorEq, exists_false, false_iff, not_forall] at hok
    simpa using hok
  | ok T' =>
    simp only [h, Except.ok.injEq, exists_eq', true_iff] at hok
    simpa using hok

/-! ## The last record of a key -/

/-- The last record under a key in a batch. -/
def lastIn (key : Text) (batch : List (Text × α)) : Option α := Json.lookup? key batch.reverse

theorem lastIn_cons (key : Text) (row : Text × α) (rest : List (Text × α)) :
    lastIn key (row :: rest) = (lastIn key rest).or (if row.1 = key then some row.2 else none) := by
  rw [lastIn, List.reverse_cons, Json.lookup?_append]
  rfl

/-- A table holds the bytes of a record under a key. -/
def Stores (format : RecordFormat α) (T : Table) (key : Text) (a : α) : Prop :=
  ∃ bytes, encodeRecord format a = .ok bytes ∧ T.get? (.text key) = some (.blob bytes)

/-- The first row of a batch is put before the others. -/
theorem tableWith_cons {row : Text × α} {rest : List (Text × α)}
    (h : tableWith format T (row :: rest) = .ok T') :
    ∃ bytes, encodeRecord format row.2 = .ok bytes ∧
      tableWith format (T.put (.text row.1) (.blob bytes)) rest = .ok T' := by
  obtain ⟨rows, hrows, hput⟩ := bind_eq_ok.1 h
  obtain ⟨bytes, more, hbytes, hmore, rfl⟩ := encodeBatch_cons_eq_ok hrows
  rw [putAll] at hput
  cases hkey : Utf8.encode row.1 with
  | error fault => simp [hkey] at hput
  | ok encoded =>
    simp only [hkey] at hput
    exact ⟨bytes, hbytes, bind_eq_ok.2 ⟨more, hmore, hput⟩⟩

/-- Keys that are not in a batch keep their cells. -/
theorem get?_tableWith (h : tableWith format T batch = .ok T') {key : TableKey}
    (hnone : ∀ text, key = .text text → lastIn text batch = none) : T'.get? key = T.get? key := by
  induction batch generalizing T with
  | nil => rw [← Except.ok.inj h]
  | cons row rest ih =>
    obtain ⟨bytes, -, hrest⟩ := tableWith_cons h
    have hsplit (text : Text) (htext : key = .text text) :
        lastIn text rest = none ∧ row.1 ≠ text := by
      have hlast := hnone text htext
      rw [lastIn_cons, Option.or_eq_none_iff] at hlast
      exact ⟨hlast.1, fun heq => by simp [heq] at hlast⟩
    rw [ih hrest fun text htext => (hsplit text htext).1, Table.get?_put T _ key, if_neg]
    intro hkey
    exact (hsplit row.1 hkey).2 rfl

/-- A batch puts the last record of each key into the table. -/
theorem stores_of_tableWith (h : tableWith format T batch = .ok T') {key : Text} {a : α}
    (hlast : lastIn key batch = some a) : Stores format T' key a := by
  induction batch generalizing T with
  | nil => cases hlast
  | cons row rest ih =>
    obtain ⟨bytes, hbytes, hrest⟩ := tableWith_cons h
    rw [lastIn_cons] at hlast
    cases hlater : lastIn key rest with
    | some later =>
      rw [hlater, Option.some_or] at hlast
      exact ih hrest (hlater.trans hlast)
    | none =>
      -- no later row has the key, so what the first one puts is still there in the end
      rw [hlater, Option.none_or] at hlast
      split at hlast
      · next hkey =>
        obtain rfl := Option.some.inj hlast
        refine ⟨bytes, hbytes, ?_⟩
        rw [get?_tableWith hrest, Table.get?_put, if_pos (by rw [hkey])]
        intro text htext
        rw [← TableKey.text_inj.1 htext]
        exact hlater
      · cases hlast

/-! ## What a store remembers -/

/-- What a store answers without looking at its table. -/
def known (s : Store α) (key : Text) : Option (Option α) :=
  match Json.lookup? key s.cache with
  | some a => some (some a)
  | none => if s.misses.contains key then some none else none

theorem isKnown_eq (s : Store α) (key : Text) : s.isKnown key = (s.known key).isSome := by
  unfold isKnown known
  cases Json.lookup? key s.cache with
  | some a => rfl
  | none => cases s.misses.contains key <;> rfl

/-- What is known is answered. -/
theorem get_of_known {key : Text} {r : Option α} (h : s.known key = some r) (T : Table) :
    s.get T key = (s, .ok r) := by
  unfold known at h
  unfold get
  cases hcache : Json.lookup? key s.cache with
  | some a =>
    simp only [hcache, Option.some.injEq] at h
    rw [← h]
  | none =>
    simp only [hcache] at h
    split at h
    · next hmiss =>
      simp only [hmiss, if_true]
      rw [Option.some.inj h]
    · cases h

/-- A record that was remembered is known under its key. -/
theorem known_remember (s : Store α) (key other : Text) (a : α) :
    (s.remember key a).known other = if other = key then some (some a) else s.known other := by
  unfold known remember
  rw [Json.lookup?_setField]
  by_cases hkey : other = key
  · simp only [if_pos hkey]
  · simp only [if_neg hkey]
    cases Json.lookup? other s.cache with
    | some b => rfl
    | none => simp [hkey]

/-- Of a batch a store remembers the last record of each key. -/
theorem known_remembered (batch : List (Text × α)) (s : Store α) (key : Text) :
    (batch.foldl (fun s row => s.remember row.1 row.2) s).known key =
      ((lastIn key batch).map some).or (s.known key) := by
  induction batch generalizing s with
  | nil => rfl
  | cons row rest ih =>
    rw [List.foldl_cons, ih, lastIn_cons, known_remember]
    cases lastIn key rest with
    | some a => rfl
    | none =>
      by_cases hkey : row.1 = key
      · simp [hkey]
      · simp [hkey, Ne.symm hkey]

end Store

end CallAudit
