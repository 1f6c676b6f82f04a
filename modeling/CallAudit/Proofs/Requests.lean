import CallAudit.Proofs.Batches

/-!
# Requests to a store

A request to a store works on the table in its file and on what the store remembers. Each kind of
request is described once by these two (`Store.Access.perform_get`, `perform_items`, `perform_size`,
`perform_error`, `perform_put`): a record that is looked up comes from memory or else from its row,
and is remembered then; what is written goes to the table and to memory; a request that fails leaves
both as they are.
-/

namespace CallAudit

/-- What can be asked of a store. -/
inductive StoreRequest (α : Type)
  | get (key : Text)
  | insert (key : Text) (a : α)
  | insertMany (batch : List (Text × α))
  | items
  | size

/-- What a store answers. -/
inductive StoreAnswer (α : Type)
  | record (r : Option α)
  /-- The record that the cache held before another one was written. -/
  | replaced (r : Option α)
  | written
  | records (rows : List (Text × α))
  | count (n : Nat)
deriving DecidableEq

namespace Store

variable {α : Type} {s : Store α} {T T' : Table} {n : Nat}

/-! ## Reading a row -/

/-- What the row of a key says. -/
def readRow (s : Store α) (T : Table) (key : Text) : Except Failure (Option α) :=
  match Utf8.encode key with
  | .error fault => .error (.unencodable fault)
  | .ok _ =>
    match T.get? (.text key) with
    | none => .ok none
    | some cell => (s.decode key cell).map some

/-- What a store answers for a key: what it knows, or else what the row says. -/
def answer (s : Store α) (T : Table) (key : Text) : Except Failure (Option α) :=
  match s.known key with
  | some r => .ok r
  | none => s.readRow T key

/-- Remembers what a row says. -/
def note (s : Store α) (key : Text) : Option α → Store α
  | none => { s with misses := key :: s.misses }
  | some a => s.remember key a

/-- Fetching a record reads its row and remembers what it gave. -/
theorem fetch_eq (hopen : s.isOpen = true) (T : Table) (key : Text) :
    s.fetch T key =
      match s.readRow T key with
      | .error e => (s, .error e)
      | .ok r => (s.note key r, .ok r) := by
  unfold fetch readRow
  rw [if_neg (by simp [hopen])]
  cases Utf8.encode key with
  | error fault => rfl
  | ok bytes =>
    cases T.get? (.text key) with
    | none => rfl
    | some cell => cases hcell : s.decode key cell <;> simp [hcell, note, Except.map]

/-- What was noted is known under its key. -/
theorem known_note {key : Text} (h : s.known key = none) (r : Option α) (other : Text) :
    (s.note key r).known other = if other = key then some r else s.known other := by
  cases r with
  | some a => exact known_remember s key other a
  | none =>
    have hcache : Json.lookup? key s.cache = none := by
      unfold known at h
      cases hcache : Json.lookup? key s.cache with
      | some a => simp [hcache] at h
      | none => rfl
    unfold known note
    by_cases hkey : other = key
    · simp [hkey, hcache]
    · simp [hkey]

/-! ## Reading rows -/

/-- The key and the record of a row. -/
def readEntry (format : RecordFormat α) (row : TableKey × Cell) : Except CellFault (Text × α) :=
  match row.1.read with
  | .error text => .error (.unreadable text)
  | .ok key => (decodeCell format row.2).map fun a => (key, a)

theorem readEntry_eq_ok {format : RecordFormat α} {row : TableKey × Cell} {record : Text × α} :
    readEntry format row = .ok record ↔
      row.1.read = .ok record.1 ∧ decodeCell format row.2 = .ok record.2 := by
  obtain ⟨key, a⟩ := record
  unfold readEntry
  cases row.1.read with
  | error text => simp
  | ok read =>
    cases decodeCell format row.2 with
    | error fault => simp [Except.map]
    | ok a' => simp [Except.map]

/-- The records in the rows of a table, by their keys. -/
def readRows (format : RecordFormat α) (T : Table) : Except CellFault (List (Text × α)) :=
  T.rows.mapM (readEntry format)

theorem mem_of_readRows {format : RecordFormat α} {out : List (Text × α)}
    (h : readRows format T = .ok out) {record : Text × α} (hrecord : record ∈ out) :
    ∃ row ∈ T.rows, row.1.read = .ok record.1 ∧ decodeCell format row.2 = .ok record.2 := by
  have hread : Except.ok record ∈ T.rows.map (readEntry format) := by
    rw [mapM_eq_ok.1 h]
    exact List.mem_map_of_mem hrecord
  obtain ⟨row, hrow, hrecord⟩ := List.mem_map.1 hread
  exact ⟨row, hrow, readEntry_eq_ok.1 hrecord⟩

/-- A store reads a row or fails with its fault. -/
theorem decodeRow_cases (s : Store α) (row : TableKey × Cell) :
    (∃ record, s.decodeRow row = .ok record ∧ readEntry s.format row = .ok record) ∨
    ∃ key fault, s.decodeRow row = .error (s.cellFailure key fault) ∧
      readEntry s.format row = .error fault := by
  unfold decodeRow readEntry
  cases row.1.read with
  | error text => exact .inr ⟨[], .unreadable text, rfl, rfl⟩
  | ok key =>
    simp only [decode]
    cases decodeCell s.format row.2 with
    | error fault => exact .inr ⟨key, fault, rfl, rfl⟩
    | ok a => exact .inl ⟨(key, a), rfl, rfl⟩

/-- Rows are all read, or reading them stops at the first that cannot be. -/
theorem decodeRows_cases (s : Store α) (rows : List (TableKey × Cell)) :
    (∃ out, s.decodeRows rows = (out, none) ∧ rows.mapM (readEntry s.format) = .ok out) ∨
    ∃ out key fault, s.decodeRows rows = (out, some (s.cellFailure key fault)) ∧
      rows.mapM (readEntry s.format) = .error fault := by
  induction rows with
  | nil => exact .inl ⟨[], rfl, rfl⟩
  | cons row rest ih =>
    rw [decodeRows, List.mapM_cons]
    rcases decodeRow_cases s row with ⟨record, hrow, hread⟩ | ⟨key, fault, hrow, hread⟩
    · rw [hrow, hread]
      rcases ih with ⟨out, hout, hrest⟩ | ⟨out, key, fault, hout, hrest⟩
      · rw [hout, hrest]
        exact .inl ⟨_, rfl, rfl⟩
      · rw [hout, hrest]
        exact .inr ⟨_, key, fault, rfl, rfl⟩
    · rw [hrow, hread]
      exact .inr ⟨[], key, fault, rfl, rfl⟩

/-- A store with the files that it works on. -/
structure Access (α : Type) where
  files : FileTree
  store : Store α

namespace Access

variable {a a' : Access α}

/-- Carries out a request. -/
def perform (a : Access α) : StoreRequest α → Access α × Except Failure (StoreAnswer α)
  | .get key =>
    match a.store.getIn a.files key with
    | (store, r) => ({ a with store }, r.map .record)
  | .insert key value =>
    match a.store.insertIn a.files key value with
    | (store, .error e) => ({ a with store }, .error e)
    | (store, .ok (before, files)) => ({ files, store }, .ok (.replaced before))
  | .insertMany batch =>
    match a.store.insertManyIn a.files batch with
    | (store, .error e) => ({ a with store }, .error e)
    | (store, .ok files) => ({ files, store }, .ok .written)
  | .items =>
    match a.store.recordsIn a.files with
    | (store, r) => ({ a with store }, r.map .records)
  | .size =>
    match a.store.sizeIn a.files with
    | (store, r) => ({ a with store }, r.map .count)

/-- The batch that a request writes. -/
def batchOf : StoreRequest α → List (Text × α)
  | .insert key value => [(key, value)]
  | .insertMany batch => batch
  | _ => []

/-- The requests that write. -/
inductive IsPut : StoreRequest α → Prop
  | insert (key : Text) (value : α) : IsPut (.insert key value)
  | insertMany (batch : List (Text × α)) : IsPut (.insertMany batch)

/-- A store that is open and reads a table. -/
structure On (a : Access α) (T : Table) (n : Nat) : Prop where
  reads : Reads a.files a.store T n
  isOpen : a.store.isOpen = true

/-- The store is the same one, whatever it remembers. -/
structure Same (a a' : Access α) : Prop where
  path : a'.store.path = a.store.path
  format : a'.store.format = a.store.format

/-- A look-up answers with what is known or else with the row, and remembers it. -/
theorem perform_get (h : a.On T n) (key : Text) :
    ∃ a', a.perform (.get key) = (a', (a.store.answer T key).map .record) ∧ a'.On T n ∧ Same a a' ∧
      (∀ r, a.store.answer T key = .ok r →
        ∀ other, a'.store.known other = if other = key then some r else a.store.known other) ∧
      (∀ e, a.store.answer T key = .error e →
        a'.store.cache = a.store.cache ∧ a'.store.misses = a.store.misses) := by
  obtain ⟨session, hstep, hget⟩ := h.reads.getIn h.isOpen key
  have hreads : Reads a.files { a.store with session } T n := ⟨h.reads.content, hstep⟩
  rw [perform, hget]
  -- what is known is answered without the row; otherwise the row is read, and noted if it can be
  cases hknown : a.store.known key with
  | some r =>
    have hanswer : a.store.answer T key = .ok r := by rw [answer, hknown]
    rw [get_of_known (s := { a.store with session }) hknown, hanswer]
    refine ⟨_, rfl, ⟨hreads, h.isOpen⟩, ⟨rfl, rfl⟩, ?_, ?_⟩
    · rintro _ ⟨⟩ other
      split
      · next heq => rw [heq]; exact hknown
      · rfl
    · rintro e ⟨⟩
  | none =>
    have hanswer : a.store.answer T key = ({ a.store with session } : Store α).readRow T key := by
      rw [answer, hknown]
      rfl
    have hunknown : ({ a.store with session } : Store α).isKnown key = false := by
      rw [isKnown_eq]
      change (a.store.known key).isSome = false
      rw [hknown]
      rfl
    rw [get_of_not_isKnown hunknown, fetch_eq (s := { a.store with session }) h.isOpen, hanswer]
    cases ({ a.store with session } : Store α).readRow T key with
    | error e =>
      refine ⟨_, rfl, ⟨hreads, h.isOpen⟩, ⟨rfl, rfl⟩, ?_, fun _ _ => ⟨rfl, rfl⟩⟩
      rintro r ⟨⟩
    | ok r =>
      refine ⟨_, rfl, ?_, ?_, ?_, ?_⟩
      · cases r with
        | none => exact ⟨⟨h.reads.content, hstep⟩, h.isOpen⟩
        | some b => exact ⟨⟨h.reads.content, hstep⟩, h.isOpen⟩
      · cases r with
        | none => exact ⟨rfl, rfl⟩
        | some b => exact ⟨rfl, rfl⟩
      · rintro _ ⟨⟩ other
        exact known_note (s := { a.store with session }) hknown r other
      · rintro e ⟨⟩

/-- The records of a table, if each can be read. -/
def recordsOf (s : Store α) (T : Table) : Except Failure (List (Text × α)) :=
  match s.decodeRows T.rows with
  | (rows, none) => .ok rows
  | (_, some e) => .error e

theorem cellFailure_congr {s' : Store α} (hpath : s'.path = s.path) (key : Text)
    (fault : CellFault) : s'.cellFailure key fault = s.cellFailure key fault := by
  cases fault <;> simp only [cellFailure, unreadable, tableName, hpath]

theorem decode_congr {s' : Store α} (hpath : s'.path = s.path) (hformat : s'.format = s.format)
    (key : Text) (cell : Cell) : s'.decode key cell = s.decode key cell := by
  rw [decode, decode, hformat]
  exact congrArg (Except.mapError · _) (funext (cellFailure_congr hpath key))

theorem decodeRow_congr {s' : Store α} (hpath : s'.path = s.path) (hformat : s'.format = s.format)
    (row : TableKey × Cell) : s'.decodeRow row = s.decodeRow row := by
  simp only [decodeRow, unreadable, hpath, decode_congr hpath hformat]

theorem decodeRows_congr {s' : Store α} (hpath : s'.path = s.path) (hformat : s'.format = s.format)
    (rows : List (TableKey × Cell)) : s'.decodeRows rows = s.decodeRows rows := by
  induction rows with
  | nil => rfl
  | cons row rest ih =>
    rw [decodeRows, decodeRows, decodeRow_congr hpath hformat, ih]

/-- A store reads all rows of a table or fails with the first fault among them. -/
theorem recordsOf_cases (s : Store α) (T : Table) :
    (∃ out, recordsOf s T = .ok out ∧ readRows s.format T = .ok out) ∨
    ∃ key fault, recordsOf s T = .error (s.cellFailure key fault) ∧
      readRows s.format T = .error fault := by
  unfold recordsOf
  rcases decodeRows_cases s T.rows with ⟨out, hout, hread⟩ | ⟨out, key, fault, hout, hread⟩
  · rw [hout]
    exact .inl ⟨out, rfl, hread⟩
  · rw [hout]
    exact .inr ⟨key, fault, rfl, hread⟩

theorem recordsIn_eq (h : a.On T n) :
    ∃ session : TableSession, session.InStep T n ∧
      a.store.recordsIn a.files = ({ a.store with session }, recordsOf a.store T) := by
  obtain ⟨session, hstep, hitems⟩ := h.reads.itemsIn h.isOpen
  have hrows : ({ a.store with session } : Store α).items T = a.store.decodeRows T.rows := by
    unfold items
    rw [if_pos h.isOpen]
    apply decodeRows_congr <;> rfl
  refine ⟨session, hstep, ?_⟩
  rw [recordsIn, recordsOf, hitems, hrows]
  rcases a.store.decodeRows T.rows with ⟨rows, _ | e⟩ <;> rfl

/-- Listing the records reads the table and changes nothing. -/
theorem perform_items (h : a.On T n) :
    ∃ a', a.perform .items = (a', (recordsOf a.store T).map .records) ∧ a'.On T n ∧ Same a a' ∧
      a'.store.known = a.store.known := by
  obtain ⟨session, hstep, hrecords⟩ := recordsIn_eq h
  refine ⟨⟨a.files, { a.store with session }⟩, ?_, ⟨⟨h.reads.content, hstep⟩, h.isOpen⟩,
    ⟨rfl, rfl⟩, rfl⟩
  rw [perform, hrecords]

/-- Counting the records reads the table and changes nothing. -/
theorem perform_size (h : a.On T n) :
    ∃ a', a.perform .size = (a', .ok (.count T.size)) ∧ a'.On T n ∧ Same a a' ∧
      a'.store.known = a.store.known := by
  obtain ⟨session, hstep, hsize⟩ := h.reads.sizeIn h.isOpen
  refine ⟨⟨a.files, { a.store with session }⟩, ?_, ⟨⟨h.reads.content, hstep⟩, h.isOpen⟩,
    ⟨rfl, rfl⟩, rfl⟩
  rw [perform, hsize, size, if_pos h.isOpen]
  rfl

/-- A request that writes is refused with its batch. -/
theorem perform_error {request : StoreRequest α} {e : Failure} (h : a.On T n)
    (hrequest : IsPut request) (hbatch : tableWith a.store.format T (batchOf request) = .error e) :
    ∃ a', a.perform request = (a', .error e) ∧ a'.On T n ∧ Same a a' ∧
      a'.store.known = a.store.known := by
  have hinsert : a.store.insertMany T (batchOf request) = .error e := by
    rw [insertMany_eq_tableWith h.isOpen, hbatch]
    rfl
  obtain ⟨session, hstep, hinsert⟩ := h.reads.insertManyIn_error h.isOpen hinsert
  refine ⟨⟨a.files, { a.store with session }⟩, ?_, ⟨⟨h.reads.content, hstep⟩, h.isOpen⟩,
    ⟨rfl, rfl⟩, rfl⟩
  cases hrequest with
  | insert key value =>
    rw [batchOf] at hinsert
    simp only [perform, insertIn, hinsert, Except.map]
  | insertMany batch =>
    rw [batchOf] at hinsert
    simp only [perform, hinsert]

/-- A request that writes puts its batch into the table and into memory. -/
theorem perform_put {request : StoreRequest α} (h : a.On T n) (hrequest : IsPut request)
    (hbatch : tableWith a.store.format T (batchOf request) = .ok T') :
    ∃ a' answer n', a.perform request = (a', .ok answer) ∧ a'.On T' n' ∧ Same a a' ∧
      (∀ key, a'.store.known key = ((lastIn key (batchOf request)).map some).or
        (a.store.known key)) ∧
      answer = match request with
        | .insert key _ => .replaced (Json.lookup? key a.store.cache)
        | _ => .written := by
  have hinsert : a.store.insertMany T (batchOf request) =
      .ok ((batchOf request).foldl (fun s row => s.remember row.1 row.2) a.store, T') := by
    rw [insertMany_eq_tableWith h.isOpen, hbatch]
    rfl
  obtain ⟨session, t', n', hinsert, hreads, -⟩ := h.reads.insertManyIn_ok h.isOpen hinsert
  obtain ⟨hpath, hformat, hopen, -⟩ := remember_fields (batchOf request) a.store
  have hon : On ⟨t', { (batchOf request).foldl (fun s row => s.remember row.1 row.2) a.store with
      session }⟩ T' n' :=
    ⟨hreads, hopen.trans h.isOpen⟩
  have hknown := known_remembered (batchOf request) a.store
  cases hrequest with
  | insert key value =>
    refine ⟨_, _, n', ?_, hon, ⟨hpath, hformat⟩, hknown, rfl⟩
    rw [batchOf] at hinsert
    simp only [perform, insertIn, hinsert, Except.map, batchOf]
  | insertMany batch =>
    refine ⟨_, _, n', ?_, hon, ⟨hpath, hformat⟩, hknown, rfl⟩
    rw [batchOf] at hinsert
    simp only [perform, hinsert, batchOf]

end Access

end Store

end CallAudit
