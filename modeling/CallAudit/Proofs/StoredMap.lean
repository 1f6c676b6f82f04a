import CallAudit.Proofs.Opening
import CallAudit.Proofs.Requests

/-!
# A store is a map

A store that nobody else writes to answers like a plain map from texts to records, whatever is
served from memory and whatever is read from its table (`Store.uses_refine_map`). The map starts
with the rows that the store finds, and each record that is written takes the place of the one
before. Closing and reopening a store forgets what it remembers and changes no answer. The keys of
the table have to be texts: one that is a sequence of bytes is listed as a text that may be another
key (`Store.byte_key_listed_as_text`).
-/

namespace CallAudit

namespace Store

variable {α : Type}

/-- What can be done with a store. -/
inductive Use (α : Type)
  | ask (request : StoreRequest α)
  | close
  | reopen

namespace Access

variable {a a' : Access α} {T T' : Table} {n : Nat}

/-- Carries out a use. There is an answer if something was asked. -/
def use (a : Access α) : Use α → Access α × Except Failure (Option (StoreAnswer α))
  | .ask request =>
    match a.perform request with
    | (a, r) => (a, r.map some)
  | .close => ({ a with store := a.store.close }, .ok none)
  | .reopen =>
    match (openAt a.store.path a.store.format).run.run { files := a.files } with
    | (.ok store, w) => ({ files := w.files, store }, .ok none)
    | (.error e, w) => ({ a with files := w.files }, .error e)

/-- Carries out one use after another, up to the first that fails. -/
def useAll : Access α → List (Use α) → Access α × Except Failure (List (Option (StoreAnswer α)))
  | a, [] => (a, .ok [])
  | a, use :: rest =>
    match a.use use with
    | (a, .error e) => (a, .error e)
    | (a, .ok answer) =>
      match a.useAll rest with
      | (a, r) => (a, r.map (answer :: ·))

end Access

/-! ## Maps of records -/

/-- A map from keys to records; a record that cannot be read is there all the same. -/
abbrev RecordMap (α : Type) := Text → Option (Except CellFault α)

namespace RecordMap

/-- The map of a table. -/
def ofTable (format : RecordFormat α) (T : Table) : RecordMap α := fun key =>
  (T.get? (.text key)).map (decodeCell format)

/-- Gives a key its record. -/
def put (m : RecordMap α) (key : Text) (a : α) : RecordMap α := Function.update m key (some (.ok a))

/-- What a use does to a map: records are put one after another, and nothing else changes. -/
def after (m : RecordMap α) : Use α → RecordMap α
  | .ask (.insert key a) => m.put key a
  | .ask (.insertMany batch) => batch.foldl (fun m row => m.put row.1 row.2) m
  | _ => m

/-- Keys that are there, each once. -/
structure Keys (m : RecordMap α) (keys : List Text) : Prop where
  nodup : keys.Nodup
  present : ∀ key, key ∈ keys ↔ m key ≠ none

/-- The answer to a use is that of the map. -/
def Meets (m : RecordMap α) : Use α → Option (StoreAnswer α) → Prop
  | .ask (.get key), answer => ∃ r, answer = some (.record r) ∧ m key = r.map .ok
  | .ask (.insert key _), answer =>
    ∃ r, answer = some (.replaced r) ∧ ∀ a, r = some a → m key = some (.ok a)
  | .ask (.insertMany _), answer => answer = some .written
  | .ask .items, answer => ∃ rows : List (Text × α), answer = some (.records rows) ∧
      m.Keys (rows.map (·.1)) ∧ ∀ row ∈ rows, m row.1 = some (.ok row.2)
  | .ask .size, answer => ∃ keys, m.Keys keys ∧ answer = some (.count keys.length)
  | .close, answer => answer = none
  | .reopen, answer => answer = none

/-- Of several records that are put under one key, the last one stays. -/
theorem foldl_put (batch : List (Text × α)) (m : RecordMap α) (key : Text) :
    batch.foldl (fun m row => m.put row.1 row.2) m key =
      ((lastIn key batch).map .ok).or (m key) := by
  induction batch generalizing m with
  | nil => rfl
  | cons row rest ih =>
    rw [List.foldl_cons, ih, lastIn_cons]
    cases lastIn key rest with
    | some a => rfl
    | none =>
      by_cases hkey : row.1 = key
      · simp [put, hkey]
      · simp [put, hkey, Ne.symm hkey]

/-- What a request that writes does to a map. -/
theorem after_put (m : RecordMap α) {request : StoreRequest α} (h : Access.IsPut request) :
    m.after (.ask request) = (Access.batchOf request).foldl (fun m row => m.put row.1 row.2) m := by
  cases h <;> rfl

end RecordMap

/-! ## Tables with textual keys -/

/-- All keys of a table are texts. -/
def HasTextKeys (T : Table) : Prop := ∀ row ∈ T.rows, ∃ text, row.1 = .text text

theorem HasTextKeys.text_of_get? {T : Table} (h : HasTextKeys T) {key : TableKey}
    (hkey : T.get? key ≠ none) : ∃ text, key = .text text := by
  obtain ⟨row, hrow, rfl⟩ := List.mem_map.1 (Table.mem_keys_iff.2 hkey)
  exact h row hrow

/-- A store writes under textual keys only. -/
theorem HasTextKeys.tableWith {format : RecordFormat α} {T T' : Table} {batch : List (Text × α)}
    (h : HasTextKeys T) (hbatch : tableWith format T batch = .ok T') : HasTextKeys T' := by
  intro row hrow
  by_contra hother
  have hnone : ∀ text, row.1 = .text text → lastIn text batch = none :=
    fun text htext => absurd ⟨text, htext⟩ hother
  have hold : T.get? row.1 ≠ none := by
    rw [← get?_tableWith hbatch hnone]
    exact Table.mem_keys_iff.1 (List.mem_map_of_mem hrow)
  exact hother (h.text_of_get? hold)

/-- Textual keys of rows are given by texts. -/
theorem exists_texts {rows : List (TableKey × Cell)}
    (h : ∀ row ∈ rows, ∃ text, row.1 = .text text) :
    ∃ keys : List Text, keys.map .text = rows.map (·.1) := by
  induction rows with
  | nil => exact ⟨[], rfl⟩
  | cons row rest ih =>
    obtain ⟨⟨text, htext⟩, hrest⟩ := List.forall_mem_cons.1 h
    obtain ⟨keys, hkeys⟩ := ih hrest
    exact ⟨text :: keys, by rw [List.map_cons, List.map_cons, hkeys, htext]⟩

namespace Access

open RecordMap

variable {a a' : Access α} {T T' : Table} {n : Nat} {m : RecordMap α} {format : RecordFormat α}
variable {room : Nat}

/-- The table and what is remembered agree with a map: the same keys are there, a row that can be
read holds the record of the map, and so does what is known. -/
structure Represents (a : Access α) (format : RecordFormat α) (T : Table) (n : Nat)
    (m : RecordMap α) : Prop where
  reads : Reads a.files a.store T n
  hasFormat : a.store.format = format
  textKeys : HasTextKeys T
  absent : ∀ key, T.get? (.text key) = none ↔ m key = none
  rows : ∀ key cell b, T.get? (.text key) = some cell → decodeCell format cell = .ok b →
    m key = some (.ok b)
  known : ∀ key r, a.store.known key = some r → m key = r.map .ok

/-- What is answered for a key is what the map has. -/
theorem Represents.answer (h : Represents a format T n m) {key : Text} {r : Option α}
    (hanswer : a.store.answer T key = .ok r) : m key = r.map .ok := by
  unfold Store.answer at hanswer
  cases hknown : a.store.known key with
  | some r' =>
    rw [hknown] at hanswer
    rw [← Except.ok.inj hanswer]
    exact h.known key r' hknown
  | none =>
    simp only [hknown, readRow] at hanswer
    split at hanswer
    · cases hanswer
    · split at hanswer
      · next hrow =>
        rw [← Except.ok.inj hanswer]
        exact (h.absent _).1 hrow
      · next cell hrow =>
        rw [decode, h.hasFormat] at hanswer
        cases hcell : decodeCell format cell with
        | error fault => simp [hcell, Except.mapError, Except.map] at hanswer
        | ok b =>
          simp only [hcell, Except.mapError, Except.map, Except.ok.injEq] at hanswer
          rw [← hanswer]
          exact h.rows _ cell b hrow hcell

/-- Texts that are the keys of the table are the keys of the map. -/
theorem Represents.keys (h : Represents a format T n m) {keys : List Text}
    (hkeys : keys.map .text = T.rows.map (·.1)) : m.Keys keys where
  nodup := List.Nodup.of_map _ (hkeys ▸ T.nodup_keys)
  present key := by
    have hmem : key ∈ keys ↔ TableKey.text key ∈ T.rows.map (·.1) := by
      rw [← hkeys, List.mem_map]
      exact ⟨fun hkey => ⟨key, hkey, rfl⟩, fun ⟨_, hother, heq⟩ => TableKey.text_inj.1 heq ▸ hother⟩
    rw [hmem, Table.mem_keys_iff, not_iff_not]
    exact h.absent key

/-- A table that can be read lists the map: the keys are the texts of the rows. -/
theorem Represents.lists (h : Represents a format T n m) {out : List (Text × α)}
    (hread : readRows format T = .ok out) :
    m.Keys (out.map (·.1)) ∧ ∀ row ∈ out, m row.1 = some (.ok row.2) := by
  -- a textual key is read as the text that it is
  have htext {row : TableKey × Cell} (hrow : row ∈ T.rows) {record : Text × α}
      (hrecord : row.1.read = .ok record.1) : row.1 = .text record.1 := by
    obtain ⟨text, htext⟩ := h.textKeys row hrow
    rw [htext] at hrecord
    rw [htext, (TableKey.read_text_eq_ok.1 hrecord).2]
  refine ⟨h.keys ?_, fun record hrecord => ?_⟩
  · rw [List.map_map]
    refine (map_eq_of_mapM hread fun row hrow record hentry => ?_).symm
    exact htext hrow (readEntry_eq_ok.1 hentry).1
  · obtain ⟨row, hrow, hkey, hcell⟩ := mem_of_readRows hread hrecord
    refine h.rows record.1 row.2 record.2 ?_ hcell
    rw [← htext hrow hkey]
    exact Table.get?_eq_some_iff.2 hrow

/-- A batch that is written is in the map. -/
theorem Represents.put (h : Represents a format T n m) (hformat : format.Faithful room)
    (hroom : room ≤ Json.storedDialect.maxDepth) {batch : List (Text × α)}
    (hbatch : tableWith format T batch = .ok T') {n' : Nat} (hreads : Reads a'.files a'.store T' n')
    (hsame : Same a a')
    (hknown : ∀ key, a'.store.known key = ((lastIn key batch).map some).or (a.store.known key)) :
    Represents a' format T' n' (batch.foldl (fun m row => m.put row.1 row.2) m) := by
  -- a key without a record in the batch keeps its row and its record
  have hold {key : Text} (hnone : lastIn key batch = none) :
      T'.get? (.text key) = T.get? (.text key) := by
    refine get?_tableWith hbatch fun text htext => ?_
    rw [← TableKey.text_inj.1 htext]
    exact hnone
  refine ⟨hreads, hsame.format.trans h.hasFormat, h.textKeys.tableWith hbatch, fun key => ?_,
    fun key cell b hrow hcell => ?_, fun key r hr => ?_⟩
  · cases hlast : lastIn key batch with
    | some b =>
      obtain ⟨bytes, -, hrow⟩ := stores_of_tableWith hbatch hlast
      simp [hrow, foldl_put, hlast]
    | none =>
      rw [hold hlast, foldl_put, hlast]
      exact h.absent key
  · cases hlast : lastIn key batch with
    | some b' =>
      obtain ⟨bytes, hbytes, hrow'⟩ := stores_of_tableWith hbatch hlast
      obtain rfl : cell = .blob bytes := Option.some.inj (hrow.symm.trans hrow')
      obtain rfl : b = b' := eq_of_decodeCell hformat hroom hbytes hcell
      simp [foldl_put, hlast]
    | none =>
      rw [hold hlast] at hrow
      rw [foldl_put, hlast]
      exact h.rows key cell b hrow hcell
  · rw [hknown] at hr
    rw [foldl_put]
    cases hlast : lastIn key batch with
    | some b =>
      rw [hlast] at hr
      simp only [Option.map_some, Option.some_or, Option.some.injEq] at hr
      rw [← hr]
      rfl
    | none =>
      rw [hlast] at hr
      exact h.known key r hr

theorem Represents.of_known (h : Represents a format T n m) {n' : Nat}
    (hreads : Reads a'.files a'.store T n') (hsame : Same a a')
    (hknown : ∀ key r, a'.store.known key = some r → m key = r.map .ok) :
    Represents a' format T n' m :=
  ⟨hreads, hsame.format.trans h.hasFormat, h.textKeys, h.absent, h.rows, hknown⟩

/-! ## One use -/

/-- A closed store answers what it knows and nothing else. -/
theorem perform_closed {request : StoreRequest α} {answer : StoreAnswer α}
    (hclosed : a.store.isOpen = false) (h : a.perform request = (a', .ok answer)) :
    ∃ key r, request = .get key ∧ a.store.known key = some r ∧ answer = .record r ∧ a' = a := by
  have hinsert (batch : List (Text × α)) :
      ∃ e, a.store.insertManyIn a.files batch = (a.store, .error e) := by
    unfold insertManyIn
    cases encodeBatch a.store.format batch with
    | error e => exact ⟨e, rfl⟩
    | ok rows => cases batch <;> exact ⟨a.store.closedFailure, by simp [hclosed]⟩
  cases request with
  | get key =>
    rw [perform, getIn, if_pos (by simp [hclosed])] at h
    cases hknown : a.store.known key with
    | some r =>
      rw [get_of_known hknown] at h
      obtain ⟨rfl, hanswer⟩ := Prod.mk.inj h
      exact ⟨key, r, rfl, hknown, (Except.ok.inj hanswer).symm, rfl⟩
    | none =>
      rw [get_of_not_isKnown (by rw [isKnown_eq, hknown]; rfl), fetch,
        if_pos (by simp [hclosed])] at h
      simp [Except.map] at h
  | insert key value =>
    obtain ⟨e, he⟩ := hinsert [(key, value)]
    simp [perform, insertIn, he, Except.map] at h
  | insertMany batch =>
    obtain ⟨e, he⟩ := hinsert batch
    simp [perform, he] at h
  | items => simp [perform, recordsIn, itemsIn, items, hclosed, Except.map] at h
  | size => simp [perform, sizeIn, size, hclosed, Except.map] at h

/-- A request that writes keeps the table and what is remembered in agreement with the map. -/
theorem Represents.perform_put (h : Represents a format T n m) (hformat : format.Faithful room)
    (hroom : room ≤ Json.storedDialect.maxDepth) (hopen : a.store.isOpen = true)
    {request : StoreRequest α} {answer : StoreAnswer α} (hrequest : IsPut request)
    (hperform : a.perform request = (a', .ok answer)) :
    Meets m (.ask request) (some answer) ∧ ∃ T' n',
      Represents a' format T' n' (m.after (.ask request)) := by
  have hon : a.On T n := ⟨h.reads, hopen⟩
  cases hbatch : tableWith a.store.format T (batchOf request) with
  | error e =>
    obtain ⟨a₁, herror, -⟩ := perform_error hon hrequest hbatch
    rw [herror] at hperform
    cases hperform
  | ok T' =>
    obtain ⟨a₁, answer₁, n', hok, hon', hsame, hknown, hanswer⟩ :=
      Access.perform_put hon hrequest hbatch
    rw [hok] at hperform
    obtain ⟨rfl, hanswer'⟩ := Prod.mk.inj hperform
    obtain rfl := Except.ok.inj hanswer'
    rw [h.hasFormat] at hbatch
    refine ⟨?_, T', n', after_put m hrequest ▸ h.put hformat hroom hbatch hon'.reads hsame hknown⟩
    cases hrequest with
    | insert key value =>
      refine ⟨_, congrArg some hanswer, fun b hb => h.known key (some b) ?_⟩
      rw [Store.known, hb]
    | insertMany batch => exact congrArg some hanswer

/-- A request that succeeds keeps the table and what is remembered in agreement with the map, and
its answer is that of the map. -/
theorem Represents.perform (h : Represents a format T n m) (hformat : format.Faithful room)
    (hroom : room ≤ Json.storedDialect.maxDepth) (hopen : a.store.isOpen = true)
    {request : StoreRequest α} {answer : StoreAnswer α}
    (hperform : a.perform request = (a', .ok answer)) :
    Meets m (.ask request) (some answer) ∧ ∃ T' n',
      Represents a' format T' n' (m.after (.ask request)) := by
  have hon : a.On T n := ⟨h.reads, hopen⟩
  cases request with
  | get key =>
    obtain ⟨a₁, hget, hon₁, hsame, hknown, -⟩ := perform_get hon key
    rw [hget] at hperform
    obtain ⟨rfl, hanswer⟩ := Prod.mk.inj hperform
    cases hr : a.store.answer T key with
    | error e => simp [hr, Except.map] at hanswer
    | ok r =>
      have hm := h.answer hr
      rw [hr] at hanswer
      obtain rfl := Except.ok.inj hanswer
      refine ⟨⟨r, rfl, hm⟩, T, n, h.of_known hon₁.reads hsame fun other r' hr' => ?_⟩
      -- of the key itself the answer is remembered, which is what the map holds
      rw [hknown r hr] at hr'
      split at hr'
      · next heq =>
        rw [heq, ← Option.some.inj hr']
        exact hm
      · exact h.known other r' hr'
  | insert key value => exact h.perform_put hformat hroom hopen (.insert key value) hperform
  | insertMany batch => exact h.perform_put hformat hroom hopen (.insertMany batch) hperform
  | items =>
    obtain ⟨a₁, hitems, hon₁, hsame, hknown⟩ := perform_items hon
    rw [hitems] at hperform
    obtain ⟨rfl, hanswer⟩ := Prod.mk.inj hperform
    rcases recordsOf_cases a.store T with ⟨out, hrecords, hread⟩ | ⟨key, fault, hrecords, -⟩
    · rw [hrecords] at hanswer
      obtain rfl := Except.ok.inj hanswer
      rw [h.hasFormat] at hread
      exact ⟨⟨out, rfl, h.lists hread⟩, T, n, h.of_known hon₁.reads hsame (hknown ▸ h.known)⟩
    · simp [hrecords, Except.map] at hanswer
  | size =>
    obtain ⟨a₁, hsize, hon₁, hsame, hknown⟩ := perform_size hon
    rw [hsize] at hperform
    obtain ⟨rfl, hanswer⟩ := Prod.mk.inj hperform
    obtain rfl := Except.ok.inj hanswer
    obtain ⟨keys, hkeys⟩ := exists_texts h.textKeys
    have hlength : keys.length = T.size := by
      rw [← List.length_map TableKey.text, hkeys, List.length_map]
      rfl
    exact ⟨⟨keys, h.keys hkeys, by rw [hlength]⟩, T, n,
      h.of_known hon₁.reads hsame (hknown ▸ h.known)⟩

/-- A store that has just been opened knows nothing. -/
theorem known_new (path : Path) (format : RecordFormat α) (session : TableSession) (key : Text) :
    ({ path, format, session } : Store α).known key = none := rfl

theorem Represents.use (h : Represents a format T n m) (hformat : format.Faithful room)
    (hroom : room ≤ Json.storedDialect.maxDepth) {use : Use α} {answer : Option (StoreAnswer α)}
    (huse : a.use use = (a', .ok answer)) :
    Meets m use answer ∧ ∃ T' n', Represents a' format T' n' (m.after use) := by
  cases use with
  | ask request =>
    rw [Access.use] at huse
    rcases hperform : a.perform request with ⟨a₁, e | given⟩
    · simp [hperform, Except.map] at huse
    · rw [hperform] at huse
      obtain ⟨rfl, hanswer⟩ := Prod.mk.inj huse
      obtain rfl := Except.ok.inj hanswer
      cases hopen : a.store.isOpen with
      | true => exact h.perform hformat hroom hopen hperform
      | false =>
        obtain ⟨key, r, rfl, hknown, rfl, rfl⟩ := perform_closed hopen hperform
        exact ⟨⟨r, rfl, h.known key r hknown⟩, T, n, h⟩
  | close =>
    obtain ⟨rfl, hanswer⟩ := Prod.mk.inj huse
    refine ⟨(Except.ok.inj hanswer).symm, T, n, ?_⟩
    exact ⟨⟨h.reads.content, h.reads.session⟩, h.hasFormat, h.textKeys, h.absent, h.rows, h.known⟩
  | reopen =>
    rw [Access.use] at huse
    rcases hopen : (openAt a.store.path a.store.format).run.run { files := a.files } with
      ⟨e | store, w⟩
    · simp only [hopen] at huse
      cases huse
    · simp only [hopen] at huse
      obtain ⟨rfl, hanswer⟩ := Prod.mk.inj huse
      obtain ⟨T₁, n₁, hfound, hreads, -, session, rfl⟩ := openAt_eq_ok hopen
      obtain rfl : T = T₁ :=
        Option.some.inj ((found_of_tableContent h.reads.content).symm.trans hfound)
      refine ⟨(Except.ok.inj hanswer).symm, T, n₁, hreads, h.hasFormat, h.textKeys, h.absent,
        h.rows,
        fun key r hr => ?_⟩
      rw [known_new] at hr
      cases hr

/-! ## All uses -/

theorem Represents.useAll (h : Represents a format T n m) (hformat : format.Faithful room)
    (hroom : room ≤ Json.storedDialect.maxDepth) {uses : List (Use α)}
    {answers : List (Option (StoreAnswer α))} (huses : a.useAll uses = (a', .ok answers)) :
    answers.length = uses.length ∧
      ∀ i use answer, uses[i]? = some use → answers[i]? = some answer →
        Meets ((uses.take i).foldl RecordMap.after m) use answer := by
  induction uses generalizing a T n m answers with
  | nil =>
    obtain ⟨-, hanswers⟩ := Prod.mk.inj huses
    obtain rfl := Except.ok.inj hanswers
    exact ⟨rfl, by simp⟩
  | cons use rest ih =>
    rw [Access.useAll] at huses
    rcases huse : a.use use with ⟨a₁, e | answer⟩
    · simp [huse] at huses
    · simp only [huse] at huses
      rcases hrest : a₁.useAll rest with ⟨a₂, e | more⟩
      · simp [hrest, Except.map] at huses
      · rw [hrest] at huses
        obtain ⟨rfl, hanswers⟩ := Prod.mk.inj huses
        obtain rfl := Except.ok.inj hanswers
        obtain ⟨hmeets, T₁, n₁, h₁⟩ := h.use hformat hroom huse
        obtain ⟨hlength, hmore⟩ := ih h₁ hrest
        refine ⟨by simp [hlength], fun i use' answer' huse' hanswer' => ?_⟩
        cases i with
        | zero =>
          obtain rfl := Option.some.inj huse'
          obtain rfl := Option.some.inj hanswer'
          exact hmeets
        | succ i => exact hmore i use' answer' huse' hanswer'

end Access

open Access RecordMap

/-- **A store refines a map.** A store that is the only one to write to its table, whose keys are
texts, and whose uses succeed, answers like the map that starts with the rows it finds and takes
each record that is written: a look-up gives the record of the key, or none where there is none; the
records are listed under every key once, each with what a look-up of that key gives; and the number
is that of the keys. Closing and reopening it does not change the map. -/
theorem uses_refine_map (path : Path) (format : RecordFormat α) (room : Nat)
    (hformat : format.Faithful room) (hroom : room ≤ Json.storedDialect.maxDepth) (w w' : World)
    (s : Store α) (hopen : (openAt path format).run.run w = (.ok s, w'))
    (hkeys : ∀ T, found w.files path = some T → HasTextKeys T) (uses : List (Use α))
    (a' : Access α) (answers : List (Option (StoreAnswer α)))
    (huses : Access.useAll ⟨w'.files, s⟩ uses = (a', .ok answers)) :
    ∃ T, found w.files path = some T ∧ answers.length = uses.length ∧
      ∀ i use answer, uses[i]? = some use → answers[i]? = some answer →
        Meets ((uses.take i).foldl RecordMap.after (ofTable format T)) use answer := by
  obtain ⟨T, n, hfound, hreads, -, session, rfl⟩ := openAt_eq_ok hopen
  refine ⟨T, hfound, ?_⟩
  have hrepresents :
      Represents ⟨w'.files, { path, format, session }⟩ format T n (ofTable format T) := by
    refine ⟨hreads, rfl, hkeys T hfound, fun key => ?_, fun key cell b hrow hcell => ?_,
      fun key r hr => ?_⟩
    · rw [ofTable, Option.map_eq_none_iff]
    · rw [ofTable, hrow, Option.map_some, hcell]
    · rw [known_new] at hr
      cases hr
  exact hrepresents.useAll hformat hroom huses

/-- A marking that is written to a store. -/
def sampleItem : MarkedItem :=
  { marking := { isEntryPoint := true }, location := { file := "f", line := 1 } }

/-- The directory of a store. -/
def samplePath : Path := { start := .relative, parts := ["d"] }

/-- A store is asked for a key, written to, and opened again. -/
def reopeningUses : List (Use MarkedItem) :=
  [.ask (.get "k"),
    .ask (.insertMany [("k", { sampleItem with marking := {} }), ("k", sampleItem)]), .close,
    .ask (.get "k"), .reopen, .ask (.get "k"), .ask .items, .ask .size]

/-- The answers to these uses. -/
def reopeningAnswers : List (Option (StoreAnswer MarkedItem)) :=
  [some (.record none), some .written, none, some (.record (some sampleItem)), none,
    some (.record (some sampleItem)), some (.records [("k", sampleItem)]), some (.count 1)]

/-- The last of two records under one key is there when the store has been reopened. -/
theorem uses_refine_map_reopened :
    (Access.useAll ⟨freshOpening.2.files, freshStore⟩ reopeningUses).2 = .ok reopeningAnswers ∧
      ∃ T, found {} samplePath = some T ∧
        ∀ i use answer, reopeningUses[i]? = some use → reopeningAnswers[i]? = some answer →
          Meets ((reopeningUses.take i).foldl RecordMap.after (ofTable MarkedItem.format T)) use
            answer := by
  have hanswers : (Access.useAll ⟨freshOpening.2.files, freshStore⟩ reopeningUses).2 =
      .ok reopeningAnswers := by decide +kernel
  have hkeys : ∀ T, found ({} : World).files samplePath = some T → HasTextKeys T := by
    intro T hT
    have hempty : found ({} : World).files samplePath = some {} := by decide +kernel
    obtain rfl := Option.some.inj (hempty.symm.trans hT)
    intro row hrow
    cases hrow
  obtain ⟨T, hfound, -, hmeets⟩ := uses_refine_map _ _ 2 (MarkedItem.faithful 0) (by decide) _ _ _
    openAt_fresh hkeys reopeningUses _ reopeningAnswers (Prod.ext rfl hanswers)
  exact ⟨hanswers, T, hfound, hmeets⟩

/-- A table with a record under a key that is a byte and no text. -/
def byteKeyed : Table :=
  ({} : Table).put (.blob [0x6b]) (recordCell MarkedItem.format sampleItem)

/-- A store of markings is opened on this table. -/
def byteKeyedOpening : Except Failure (Store MarkedItem) × World :=
  (openAt samplePath MarkedItem.format).run.run
    { files := { nodes := [(["d"], .directory), (["d", "db"], .file (.table byteKeyed 1))] } }

/-- The store that was opened on this table. -/
def byteKeyedStore : Store MarkedItem := byteKeyedOpening.1.toOption.get (by decide +kernel)

/-- A key that is no text is listed as one under which nothing is found, and a second time once this
text is a key. No map answers so. -/
theorem byte_key_listed_as_text :
    (Access.useAll ⟨byteKeyedOpening.2.files, byteKeyedStore⟩
        [.ask (.get "b'k'"), .ask .items, .ask (.insert "b'k'" sampleItem), .ask .items]).2 =
      .ok [some (.record none), some (.records [("b'k'", sampleItem)]), some (.replaced none),
        some (.records [("b'k'", sampleItem), ("b'k'", sampleItem)])] ∧
    ∀ m : RecordMap MarkedItem, m.Meets (.ask (.get "b'k'")) (some (.record none)) →
      ¬ m.Meets (.ask .items) (some (.records [("b'k'", sampleItem)])) := by
  refine ⟨by decide +kernel, ?_⟩
  rintro m ⟨r, hr, habsent⟩ ⟨rows, hrows, hkeys, -⟩
  cases hr
  cases hrows
  exact (hkeys.present "b'k'").1 (by simp) habsent

end Store

end CallAudit
