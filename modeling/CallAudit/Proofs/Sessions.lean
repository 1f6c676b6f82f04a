import CallAudit.Depstore.Store
import CallAudit.Proofs.Encoding
import CallAudit.Proofs.Places
import CallAudit.Proofs.Results

/-!
# Stores and their tables

A store answers from its session what the table in its file holds, as long as nobody takes the table
away: either the stamp shows that the table has changed since it was read, or what was read is still
right (`TableSession.InStep`). So each request to a store in a file tree is the same request to the
table in its file (`Store.Reads.getIn`, `itemsIn`, `sizeIn`, `insertManyIn`), and of all the rest of
the files none matters.
-/

namespace CallAudit

/-! ## Tables -/

namespace TableKey

/-- Different texts are different keys. -/
@[simp] theorem text_inj {s t : Text} : text s = text t ↔ s = t := by
  refine ⟨fun h => Utf8.flatMap_encodePoint_inj ?_, congrArg text⟩
  injection h

@[simp] theorem blob_ne_text (bytes : List UInt8) (t : Text) : blob bytes ≠ text t := by
  intro h
  cases h

/-- The text of a key that is read. -/
theorem read_text {t : Text} (h : Text.isScalar t = true) : (text t).read = .ok t := by
  rw [text, read, Utf8.decode_encode (Utf8.encode_eq_ok.2 ⟨h, rfl⟩)]
  rfl

/-- A text is read as itself, if it has an encoding. -/
theorem read_text_eq_ok {t key : Text} :
    (text t).read = .ok key ↔ Text.isScalar t = true ∧ key = t := by
  constructor
  · intro h
    rw [text, read] at h
    cases hdecode : Utf8.decode (t.flatMap Utf8.encodePoint) with
    | error fault => simp [hdecode, Except.mapError] at h
    | ok decoded =>
      simp only [hdecode, Except.mapError, Except.ok.injEq] at h
      subst h
      obtain ⟨hscalar, hbytes⟩ := Utf8.encode_eq_ok.1 (Utf8.decode_eq_ok.1 hdecode)
      obtain rfl := text_inj.1 (congrArg textual hbytes)
      exact ⟨hscalar, rfl⟩
  · rintro ⟨hscalar, rfl⟩
    exact read_text hscalar

end TableKey

namespace Table

variable {T : Table} {key : TableKey} {cell : Cell}

theorem nodup_keys (T : Table) : (T.rows.map (·.1)).Nodup := by
  rw [List.Nodup, List.pairwise_map]
  refine T.ascending.imp ?_
  intro a b hlt heq
  rw [heq] at hlt
  exact TableKey.lt_irrefl _ hlt

/-- The rows of a table are the cells under its keys. -/
theorem get?_eq_some_iff : T.get? key = some cell ↔ (key, cell) ∈ T.rows :=
  lookup_eq_some_iff_mem T.nodup_keys

theorem mem_keys_iff : key ∈ T.rows.map (·.1) ↔ T.get? key ≠ none := by
  rw [List.mem_map]
  constructor
  · rintro ⟨⟨k, c⟩, hrow, rfl⟩
    rw [get?_eq_some_iff.2 hrow]
    simp
  · intro h
    obtain ⟨cell, hcell⟩ := Option.ne_none_iff_exists'.1 h
    exact ⟨(key, cell), get?_eq_some_iff.1 hcell, rfl⟩

theorem putRow_eq_self {rows : List (TableKey × Cell)}
    (hsorted : rows.Pairwise fun a b => a.1.lt b.1 = true) (h : (key, cell) ∈ rows) :
    putRow key cell rows = rows := by
  induction rows with
  | nil => cases h
  | cons row rest ih =>
    obtain ⟨k, c⟩ := row
    obtain ⟨hfirst, hrest⟩ := List.pairwise_cons.1 hsorted
    rw [putRow]
    rcases List.mem_cons.1 h with heq | hmem
    · obtain ⟨rfl, rfl⟩ := Prod.mk.inj heq
      rw [if_pos rfl]
    · have hlt : k.lt key = true := hfirst _ hmem
      have hne : k ≠ key := by
        rintro rfl
        exact TableKey.lt_irrefl _ hlt
      have hnot : ¬ key.lt k = true :=
        fun hback => TableKey.lt_irrefl _ (TableKey.lt_trans hlt hback)
      rw [if_neg hne, if_neg hnot, ih hrest hmem]

/-- Putting what is there changes nothing. -/
theorem put_eq_self (h : T.get? key = some cell) : T.put key cell = T := by
  have hrows := putRow_eq_self T.ascending (get?_eq_some_iff.1 h)
  simp only [put, hrows]

end Table

/-! ## Sessions -/

namespace TableSession

variable {s : TableSession} {T T' : Table} {n : Nat}

/-- A session knows of a table, and if it has read the table with its present number of changes,
then it has read the present rows. -/
structure InStep (s : TableSession) (T : Table) (n : Nat) : Prop where
  hasTable : s.hasTable = true
  outdated : s.outdated = []
  lastFault : s.lastFault = none
  stamp : ∃ m ≤ n, s.stamp = .changes m ∧ (m = n → s.holding = .table none ∨
    s.holding = .table (some T))

theorem inStep_joined (T : Table) (n : Nat) : (joined n).InStep T n :=
  ⟨rfl, rfl, rfl, n, le_refl n, rfl, fun _ => .inl rfl⟩

theorem inStep_new : ({} : TableSession).InStep {} 1 :=
  ⟨rfl, rfl, rfl, 1, le_refl 1, rfl, fun _ => .inr rfl⟩

/-- A session notices a change, because each change is counted. -/
theorem InStep.changed (h : s.InStep T n) (T' : Table) : s.InStep T' (n + 1) := by
  obtain ⟨m, hm, hstamp, -⟩ := h.stamp
  exact ⟨h.hasTable, h.outdated, h.lastFault, m, by omega, hstamp, fun hm' => by omega⟩

theorem InStep.written (h : s.InStep T n) (T' : Table) (n' : Nat) :
    (s.written T' n').InStep T' n' :=
  ⟨h.hasTable, h.outdated, h.lastFault, n', le_refl n', rfl, fun _ => .inr rfl⟩

/-- A session looks at the rows that the table has. -/
theorem InStep.look (h : s.InStep T n) : s.look (.table T n) = (s.written T n, .ok T) := by
  obtain ⟨m, -, hstamp, hholding⟩ := h.stamp
  have hread : s.readAnew (.table T n) = (s.written T n, .ok T) := rfl
  by_cases hm : m = n
  · subst hm
    rcases hholding rfl with hnone | hsome
    · exact (TableSession.look_of_holding_none _ hnone).trans hread
    · have hsame : s.written T m = s := by rw [TableSession.written, ← hstamp, ← hsome]
      rw [hsame]
      exact TableSession.look_of_stamp_eq hstamp.symm hsome
  · have hstale : (FileContent.table T n).stamp ≠ s.stamp := by
      simp [FileContent.stamp, hstamp, Ne.symm hm]
    exact (TableSession.look_of_stamp_ne hstale).trans hread

/-- A request begins. -/
theorem InStep.begin (h : s.InStep T n) (content : FileContent) (r : TableRequest) :
    ∃ s', s.begin content r = (s', .ok ()) ∧ s'.InStep T n := by
  unfold TableSession.begin
  by_cases hmade : s.made.contains r
  · rw [if_pos hmade]
    refine ⟨_, rfl, ?_⟩
    split
    · exact ⟨h.hasTable, h.outdated, rfl, h.stamp⟩
    · exact h
  · rw [if_neg hmade]
    unfold makeReady
    simp only [h.hasTable, if_true, h.outdated, List.filter_nil]
    exact ⟨_, rfl, rfl, rfl, rfl, h.stamp⟩

/-- A request that has begun gives the rows of the table. -/
theorem InStep.finish (h : s.InStep T n) (r : TableRequest) :
    s.finish (.table T n) r = (s.written T n, .ok T) := by
  have hrows : s.rows (.table T n) r = (s.written T n, .ok T) := by
    unfold rows
    simp only [h.outdated, List.contains_nil, Bool.false_eq_true, if_false, h.look]
    rw [TableSession.written, h.hasTable]
  unfold TableSession.finish
  simp only [hrows]
  rw [TableSession.written, h.lastFault]

end TableSession

/-! ## The file of a table -/

namespace Store

open FileTree

variable {α : Type} {t t' : FileTree} {path : Path} {s : Store α} {T T' : Table}
  {n n' : Nat} {F : Place}

/-- Where the content of a table file comes from. -/
theorem tableContent_eq_table : tableContent t path = .ok (.table T n) ↔
    t.isTablePlace (tableFile path) = true ∧
      ∃ F, t.place (tableFile path) = .ok F ∧ t.node? F = some (.file (.table T n)) := by
  unfold tableContent FileTree.read
  by_cases hplace : t.isTablePlace (tableFile path) = true
  · simp only [hplace, Bool.not_true, Bool.false_eq_true, if_false, true_and]
    cases t.place (tableFile path) with
    | error problem => by_cases hproblem : problem = .noSuchFile <;> simp [hproblem]
    | ok F =>
      rcases hnode : t.node? F with _ | (_ | content) <;> simp [hnode]
  · simp [hplace]

theorem isTablePlace_of_tableContent {content : FileContent}
    (h : tableContent t path = .ok content) : t.isTablePlace (tableFile path) = true := by
  unfold tableContent at h
  split at h
  · cases h
  · next hlength => simpa using hlength

/-- A table that has been written is the content of the file. -/
theorem tableContent_of_write (hlength : t.isTablePlace (tableFile path) = true)
    (h : t.write (tableFile path) (.table T n) = .ok t') :
    tableContent t' path = .ok (.table T n) := by
  obtain ⟨F, hplace, hnode, rfl⟩ := write_eq_ok.1 h
  have hplace' : (t.set F (.file (.table T n))).place (tableFile path) = .ok F :=
    place_of_keeps (keeps_set hnode _) hplace
  refine tableContent_eq_table.2 ⟨?_, F, hplace', ?_⟩
  · unfold isTablePlace at hlength ⊢
    rw [hplace] at hlength
    rw [hplace']
    exact hlength
  · rw [node?_set hnode, if_pos rfl]

/-- A table can be written where one is. -/
theorem write_tableFile (h : tableContent t path = .ok (.table T n)) (T' : Table) (n' : Nat) :
    ∃ t', t.write (tableFile path) (.table T' n') = .ok t' ∧
      tableContent t' path = .ok (.table T' n') := by
  obtain ⟨hlength, F, hplace, hnode⟩ := tableContent_eq_table.1 h
  have hwrite : t.write (tableFile path) (.table T' n') = .ok (t.set F (.file (.table T' n'))) :=
    write_eq_ok.2 ⟨F, hplace, by simp [hnode], rfl⟩
  exact ⟨_, hwrite, tableContent_of_write hlength hwrite⟩

/-! ## Requests -/

/-- A store reads a table that is in its file and has seen a number of changes. -/
structure Reads (t : FileTree) (s : Store α) (T : Table) (n : Nat) : Prop where
  content : tableContent t s.path = .ok (.table T n)
  session : s.session.InStep T n

/-- A store that asks for rows gets those of its table. -/
theorem Reads.ask (h : Reads t s T n) (r : TableRequest) :
    ∃ session : TableSession, session.InStep T n ∧ session.changes = n ∧
      s.ask t r (.ok ()) = ({ s with session }, .ok T) := by
  obtain ⟨begun, hbegin, hstep⟩ := h.session.begin (.table T n) r
  refine ⟨begun.written T n, hstep.written T n, rfl, ?_⟩
  unfold Store.ask
  simp only [h.content, hbegin, hstep.finish r]
  rfl

/-- A key that is refused is reported as such. -/
theorem Reads.ask_error (h : Reads t s T n) (r : TableRequest) (e : Failure) :
    ∃ session : TableSession, session.InStep T n ∧
      s.ask t r (.error e) = ({ s with session }, .error e) := by
  obtain ⟨begun, hbegin, hstep⟩ := h.session.begin (.table T n) r
  refine ⟨begun, hstep, ?_⟩
  unfold Store.ask
  simp [h.content, hbegin, hstep.lastFault]

theorem isKnown_eq_false {key : Text} :
    s.isKnown key = false ↔ Json.lookup? key s.cache = none ∧ s.misses.contains key = false := by
  rw [isKnown, Bool.or_eq_false_iff, Option.isSome_eq_false_iff, Option.isNone_iff_eq_none]

theorem get_of_isKnown {key : Text} (hknown : s.isKnown key = true) (T T' : Table) :
    s.get T key = s.get T' key := by
  unfold get
  cases hcache : Json.lookup? key s.cache with
  | some a => rfl
  | none =>
    have hmiss : s.misses.contains key = true := by simpa [isKnown, hcache] using hknown
    simp only [hmiss, if_true]

theorem get_of_not_isKnown {key : Text} (hknown : s.isKnown key = false) (T : Table) :
    s.get T key = s.fetch T key := by
  obtain ⟨hcache, hmiss⟩ := isKnown_eq_false.1 hknown
  unfold get
  simp only [hcache, hmiss, Bool.false_eq_true, if_false]

/-- A record is looked up in the table. -/
theorem Reads.getIn (h : Reads t s T n) (hopen : s.isOpen = true) (key : Text) :
    ∃ session : TableSession, session.InStep T n ∧
      s.getIn t key = ({ s with session } : Store α).get T key := by
  unfold Store.getIn
  cases hknown : s.isKnown key with
  | true => exact ⟨s.session, h.session, get_of_isKnown hknown {} T⟩
  | false =>
    rw [if_neg (by simp [hopen])]
    have hfetch (session : TableSession) :
        ({ s with session } : Store α).get T key = ({ s with session } : Store α).fetch T key :=
      get_of_not_isKnown (s := { s with session }) hknown T
    cases hkey : Utf8.encode key with
    | ok bytes =>
      obtain ⟨session, hstep, -, hask⟩ := h.ask .find
      exact ⟨session, hstep, by simp only [checkKey, hkey, hask]⟩
    | error fault =>
      obtain ⟨session, hstep, hask⟩ := h.ask_error .find (.unencodable fault)
      refine ⟨session, hstep, ?_⟩
      rw [hfetch]
      simp [checkKey, hkey, hask, fetch, hopen]

/-- The records are those of the table. -/
theorem Reads.itemsIn (h : Reads t s T n) (hopen : s.isOpen = true) :
    ∃ session : TableSession, session.InStep T n ∧
      s.itemsIn t = ({ s with session }, ({ s with session } : Store α).items T) := by
  obtain ⟨session, hstep, -, hask⟩ := h.ask .list
  refine ⟨session, hstep, ?_⟩
  unfold Store.itemsIn
  rw [if_neg (by simp [hopen]), hask]

/-- The number of rows is that of the table. -/
theorem Reads.sizeIn (h : Reads t s T n) (hopen : s.isOpen = true) :
    ∃ session : TableSession, session.InStep T n ∧ s.sizeIn t = ({ s with session }, s.size T) := by
  obtain ⟨session, hstep, -, hask⟩ := h.ask .count
  refine ⟨session, hstep, ?_⟩
  unfold Store.sizeIn
  rw [if_neg (by simp [hopen]), hask]
  rfl

/-! ## Writing -/

/-- Rows that are there already change nothing. -/
theorem putAll_of_not_alters {rows : List (Text × List UInt8)} (halters : alters T rows = false)
    (h : putAll T rows = .ok T') : T' = T := by
  induction rows with
  | nil => exact (Except.ok.inj h).symm
  | cons row rest ih =>
    obtain ⟨key, bytes⟩ := row
    simp only [alters, List.any_cons, Bool.or_eq_false_iff, decide_eq_false_iff_not, ne_eq,
      not_not] at halters
    rw [putAll, Table.put_eq_self halters.1] at h
    cases hkey : Utf8.encode key with
    | error fault => simp [hkey] at h
    | ok _ =>
      simp only [hkey] at h
      exact ih halters.2 h

/-- Writing a batch encodes its records and puts them into the table. -/
theorem insertMany_eq_ok {batch : List (Text × α)} {after : Store α} (hopen : s.isOpen = true) :
    s.insertMany T batch = .ok (after, T') ↔
      ∃ rows, encodeBatch s.format batch = .ok rows ∧ putAll T rows = .ok T' ∧
        after = batch.foldl (fun s row => s.remember row.1 row.2) s := by
  unfold insertMany writeBatch
  cases encodeBatch s.format batch with
  | error e => simp
  | ok rows =>
    simp only [hopen, if_true, Except.ok.injEq, exists_eq_left']
    cases putAll T rows with
    | error e => simp
    | ok altered =>
      simp only [Except.ok.injEq, Prod.mk.injEq, eq_comm (b := after), and_comm]

/-- Remembering records has nothing to do with the session. -/
theorem remember_session (batch : List (Text × α)) (s : Store α) (session : TableSession) :
    batch.foldl (fun s row => s.remember row.1 row.2) { s with session } =
      { batch.foldl (fun s row => s.remember row.1 row.2) s with session } := by
  induction batch generalizing s with
  | nil => rfl
  | cons row rest ih => exact ih (s.remember row.1 row.2)

/-- Remembering records changes the cache only. -/
theorem remember_fields (batch : List (Text × α)) (s : Store α) :
    let after := batch.foldl (fun s row => s.remember row.1 row.2) s
    after.path = s.path ∧ after.format = s.format ∧ after.isOpen = s.isOpen ∧
      after.session = s.session := by
  induction batch generalizing s with
  | nil => exact ⟨rfl, rfl, rfl, rfl⟩
  | cons row rest ih => exact ih (s.remember row.1 row.2)

/-- What a batch does to a table has nothing to do with the session. -/
theorem insertMany_session (T : Table) (s : Store α) (batch : List (Text × α))
    (session : TableSession) :
    ({ s with session } : Store α).insertMany T batch =
      (s.insertMany T batch).map fun r => ({ r.1 with session }, r.2) := by
  have hwrite : ({ s with session } : Store α).writeBatch T batch = s.writeBatch T batch := rfl
  rw [insertMany, insertMany, hwrite]
  cases s.writeBatch T batch with
  | error e => rfl
  | ok T' => exact congrArg (fun after => Except.ok (after, T')) (remember_session batch s session)

theorem encodeBatch_cons_eq_ok {format : RecordFormat α} {row : Text × α} {rest : List (Text × α)}
    {rows : List (Text × List UInt8)} (h : encodeBatch format (row :: rest) = .ok rows) :
    ∃ bytes more, encodeRecord format row.2 = .ok bytes ∧ encodeBatch format rest = .ok more ∧
      rows = (row.1, bytes) :: more := by
  rw [encodeBatch] at h
  cases hbytes : encodeRecord format row.2 with
  | error e => simp [hbytes] at h
  | ok bytes =>
    cases hmore : encodeBatch format rest with
    | error e => simp [hbytes, hmore] at h
    | ok more =>
      simp only [hbytes, hmore] at h
      exact ⟨bytes, more, rfl, rfl, (Except.ok.inj h).symm⟩

/-- A batch with records comes down to what the table makes of it. -/
theorem Reads.insertManyIn_cons (h : Reads t s T n) (hopen : s.isOpen = true) {row : Text × α}
    {rest : List (Text × α)} {rows : List (Text × List UInt8)}
    (hrows : encodeBatch s.format (row :: rest) = .ok rows) :
    ∃ session : TableSession, session.InStep T n ∧
      s.insertManyIn t (row :: rest) =
        match s.insertMany T (row :: rest) with
        | .error e => ({ s with session }, .error e)
        | .ok (after, altered) =>
          if alters T rows then
            match putTable t s altered (n + 1) with
            | .error e => ({ s with session }, .error e)
            | .ok t' => ({ after with session := session.written altered (n + 1) }, .ok t')
          else ({ after with session }, .ok t) := by
  unfold Store.insertManyIn
  simp only [hrows]
  rw [if_neg (by simp [hopen])]
  cases hkey : Utf8.encode row.1 with
  | ok bytes =>
    obtain ⟨session, hstep, hchanges, hask⟩ := h.ask .put
    refine ⟨session, hstep, ?_⟩
    simp only [checkKey, hkey, hask, insertMany_session, hchanges]
    cases hbatch : s.insertMany T (row :: rest) with
    | error e => rfl
    | ok r =>
      obtain ⟨after, altered⟩ := r
      rfl
  | error fault =>
    -- the first key is refused before any row is put
    obtain ⟨session, hstep, hask⟩ := h.ask_error .put (.unencodable fault)
    have hrefused : s.insertMany T (row :: rest) = .error (.unencodable fault) := by
      obtain ⟨bytes, more, -, -, rfl⟩ := encodeBatch_cons_eq_ok hrows
      simp [insertMany, writeBatch, hrows, hopen, putAll, hkey]
    refine ⟨session, hstep, ?_⟩
    simp only [checkKey, hkey, hask, hrefused]

/-- A batch that is refused for the table is refused for the store, which remembers nothing of
it. -/
theorem Reads.insertManyIn_error (h : Reads t s T n) (hopen : s.isOpen = true)
    {batch : List (Text × α)} {e : Failure} (hbatch : s.insertMany T batch = .error e) :
    ∃ session : TableSession, session.InStep T n ∧
      s.insertManyIn t batch = ({ s with session }, .error e) := by
  cases hrows : encodeBatch s.format batch with
  | error e' =>
    refine ⟨s.session, h.session, ?_⟩
    unfold Store.insertManyIn
    unfold insertMany writeBatch at hbatch
    simp only [hrows] at hbatch ⊢
    rw [Except.error.inj hbatch]
  | ok rows =>
    cases batch with
    | nil => simp [insertMany, writeBatch, encodeBatch, putAll, hopen] at hbatch
    | cons row rest =>
      obtain ⟨session, hstep, hinsert⟩ := h.insertManyIn_cons hopen hrows
      exact ⟨session, hstep, by rw [hinsert, hbatch]⟩

/-- A batch that the table takes is written to the file of the store. -/
theorem Reads.insertManyIn_ok (h : Reads t s T n) (hopen : s.isOpen = true)
    {batch : List (Text × α)} {after : Store α} (hbatch : s.insertMany T batch = .ok (after, T')) :
    ∃ (session : TableSession) (t' : FileTree) (n' : Nat),
      s.insertManyIn t batch = ({ after with session }, .ok t') ∧
        Reads t' { after with session } T' n' ∧
      (t' = t ∨ t.write (tableFile s.path) (.table T' n') = .ok t') := by
  obtain ⟨rows, hrows, hput, rfl⟩ := (insertMany_eq_ok hopen).1 hbatch
  obtain ⟨hpath, -, -, -⟩ := remember_fields batch s
  cases batch with
  | nil =>
    obtain rfl : [] = rows := Except.ok.inj hrows
    obtain rfl : T = T' := Except.ok.inj hput
    obtain ⟨session, hbegin, hstep⟩ := h.session.begin (.table T n) .put
    refine ⟨session, t, n, ?_, ⟨h.content, hstep⟩, .inl rfl⟩
    unfold Store.insertManyIn beginPut
    simp [encodeBatch, hopen, h.content, hbegin, Except.map, Except.mapError]
  | cons row rest =>
    obtain ⟨session, hstep, hinsert⟩ := h.insertManyIn_cons hopen hrows
    rw [hinsert, hbatch]
    cases halters : alters T rows with
    | false =>
      obtain rfl := putAll_of_not_alters halters hput
      exact ⟨session, t, n, rfl, ⟨hpath ▸ h.content, hstep⟩, .inl rfl⟩
    | true =>
      obtain ⟨t', hwrite, hcontent⟩ := write_tableFile h.content T' (n + 1)
      refine ⟨session.written T' (n + 1), t', n + 1, ?_,
        ⟨hpath ▸ hcontent, hstep.written T' (n + 1)⟩, .inr hwrite⟩
      simp [putTable, hwrite, Except.mapError]

end Store

end CallAudit
