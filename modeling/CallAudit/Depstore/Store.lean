import CallAudit.Depstore.Session
import CallAudit.Failure
import CallAudit.Record.Format

/-!
# Stores

A store keeps records of one kind in a table. Records are written as JSON in UTF-8, all records of a
batch or none. Reading goes through a cache: a record that has been read or written is not read
again, and a key that was found absent is remembered as absent until the store itself writes it. A
store that has been closed answers from its cache only.
-/

namespace CallAudit

/-- Why a cell holds no record. -/
inductive CellFault
  /-- It holds a text that is not UTF-8. -/
  | unreadable (text : UnreadableText)
  /-- What it holds is no record. -/
  | refused (reason : RefusalReason)
deriving DecidableEq

/-- A store of records. Its table is the file `db` in its directory. -/
structure Store (α : Type) where
  path : Path
  format : RecordFormat α
  /-- Records that have been read or written. -/
  cache : List (Text × α) := []
  /-- Keys that were found absent. -/
  misses : List Text := []
  isOpen : Bool := true
  session : TableSession := {}

namespace Store

variable {α : Type}

/-- The name of the table. -/
def tableName (s : Store α) : Text := s.path.name

/-- The file that holds the table of a store in the given directory. -/
def tableFile (path : Path) : Path := path.child "db"

/-- The failure of a closed store. -/
def closedFailure (s : Store α) : Failure :=
  .storeUnavailable s.path "Cannot operate on a closed database."

/-! ## Encoding and decoding -/

/-- The bytes of a record; one that holds a surrogate has none. -/
def encodeRecord (format : RecordFormat α) (a : α) : Except Failure (List UInt8) :=
  match Utf8.encode (format.toStored a) with
  | .ok bytes => .ok bytes
  | .error _ => .error .unencodableRecord

/-- The fault of bytes that are not UTF-8. -/
def notJson (format : RecordFormat α) : Invalid :=
  { model := format.model, origin := .stored, faults := [⟨[], .invalidJson⟩] }

/-- The record that a text is the JSON form of. -/
def decodeText (format : RecordFormat α) (t : Text) : Except CellFault α :=
  (format.ofStored t).mapError fun e => .refused (.invalid e)

/-- The record in a cell. -/
def decodeCell (format : RecordFormat α) : Cell → Except CellFault α
  | .text bytes =>
    match Utf8.decode bytes with
    | .ok t => decodeText format t
    | .error _ => .error (.unreadable { column := Cell.column, bytes })
  | .blob bytes =>
    match Utf8.decode bytes with
    | .ok t => decodeText format t
    | .error _ => .error (.refused (.invalid (notJson format)))
  | .int _ => .error (.refused (.because "unexpected int value"))
  | .float _ => .error (.refused (.because "unexpected float value"))

/-- The failure of a store whose table holds a text that cannot be read. -/
def unreadable (s : Store α) (text : UnreadableText) : Failure :=
  .storeUnavailable s.path text.message

/-- The failure of a cell without a record under a key. -/
def cellFailure (s : Store α) (key : Text) : CellFault → Failure
  | .unreadable text => s.unreadable text
  | .refused reason => .corruptRecord s.tableName key reason

/-- The record in the cell under a key. -/
def decode (s : Store α) (key : Text) (cell : Cell) : Except Failure α :=
  (decodeCell s.format cell).mapError (s.cellFailure key)

/-- The key and the record of a row. -/
def decodeRow (s : Store α) (row : TableKey × Cell) : Except Failure (Text × α) :=
  match row.1.read with
  | .error text => .error (s.unreadable text)
  | .ok key => (s.decode key row.2).map fun a => (key, a)

/-! ## Reading -/

/-- Remembers a record. -/
def remember (s : Store α) (key : Text) (a : α) : Store α :=
  { s with cache := Json.setField key a s.cache, misses := s.misses.filter (· != key) }

/-- Looks up a key in the table. -/
def fetch (table : Table) (s : Store α) (key : Text) : Store α × Except Failure (Option α) :=
  if !s.isOpen then (s, .error s.closedFailure)
  else
    match Utf8.encode key with
    | .error fault => (s, .error (.unencodable fault))
    | .ok _ =>
      match table.get? (.text key) with
      | none => ({ s with misses := key :: s.misses }, .ok none)
      | some cell =>
        match s.decode key cell with
        -- a row that cannot be read is read again the next time
        | .error e => (s, .error e)
        | .ok a => (s.remember key a, .ok (some a))

/-- The record under a key, from the cache if it is known there. -/
def get (table : Table) (s : Store α) (key : Text) : Store α × Except Failure (Option α) :=
  match Json.lookup? key s.cache with
  | some a => (s, .ok (some a))
  | none => if s.misses.contains key then (s, .ok none) else s.fetch table key

/-- Decodes rows in order, up to the first that cannot be read. -/
def decodeRows (s : Store α) : List (TableKey × Cell) → List (Text × α) × Option Failure
  | [] => ([], none)
  | row :: rest =>
    match s.decodeRow row with
    | .error e => ([], some e)
    | .ok record =>
      let (records, failure) := decodeRows s rest
      (record :: records, failure)

/-- All records in ascending order of their keys, up to the first that cannot be read. -/
def items (table : Table) (s : Store α) : List (Text × α) × Option Failure :=
  if s.isOpen then s.decodeRows table.rows else ([], some s.closedFailure)

/-- The number of rows. -/
def size (table : Table) (s : Store α) : Except Failure Nat :=
  if s.isOpen then .ok table.size else .error s.closedFailure

/-! ## Writing -/

/-- The encoded records of a batch. -/
def encodeBatch (format : RecordFormat α) :
    List (Text × α) → Except Failure (List (Text × List UInt8))
  | [] => .ok []
  | (k, a) :: rest =>
    match encodeRecord format a with
    | .error e => .error e
    | .ok bytes =>
      match encodeBatch format rest with
      | .error e => .error e
      | .ok rows => .ok ((k, bytes) :: rows)

/-- Puts rows into a table, or none of them if a key has no encoding. -/
def putAll : Table → List (Text × List UInt8) → Except Failure Table
  | table, [] => .ok table
  | table, (k, bytes) :: rest =>
    match Utf8.encode k with
    | .error fault => .error (.unencodable fault)
    | .ok _ => putAll (table.put (.text k) (.blob bytes)) rest

/-- The table after writing a batch. -/
def writeBatch (table : Table) (s : Store α) (batch : List (Text × α)) : Except Failure Table :=
  match encodeBatch s.format batch with
  | .error e => .error e
  | .ok rows => if s.isOpen then putAll table rows else .error s.closedFailure

/-- Writes a batch of records, all of them or none. -/
def insertMany (table : Table) (s : Store α) (batch : List (Text × α)) :
    Except Failure (Store α × Table) :=
  match s.writeBatch table batch with
  | .error e => .error e
  | .ok table => .ok (batch.foldl (fun s (k, a) => s.remember k a) s, table)

/-- Writes a record and gives the one that the cache held before. -/
def insert (table : Table) (s : Store α) (key : Text) (a : α) :
    Except Failure (Option α × Store α × Table) :=
  match s.insertMany table [(key, a)] with
  | .error e => .error e
  | .ok (s', table) => .ok (Json.lookup? key s.cache, s', table)

/-- Closes the store. -/
def close (s : Store α) : Store α := { s with isOpen := false }

/-! ## Stores in a file tree -/

/-- The logger of stores. -/
def loggerName : Text := "taurus.analysis.summaries"

/-- The failure of a store whose table cannot be used. -/
def unavailable (s : Store α) (fault : TableFault) : Failure :=
  .storeUnavailable s.path fault.message

/-- The content of the table file in the directory of a store; a missing file is as good as an empty
one. -/
def tableContent (t : FileTree) (path : Path) : Except TableFault FileContent :=
  if !t.isTablePlace (tableFile path) then .error .cannotOpen
  else
    match t.read (tableFile path) with
    | .ok content => .ok content
    | .error fault => if fault.problem = .noSuchFile then .ok (.bytes []) else .error .cannotOpen

/-- Opens a store in a directory, which is created if need be, as an empty table is. -/
def openAt (path : Path) (format : RecordFormat α) : Action (Store α) := do
  Action.makeDirectories path fun fault => .storeUnavailable path fault.message
  let content ← Action.ofExcept ((tableContent (← Action.files) path).mapError fun fault =>
    .storeUnavailable path fault.message)
  match content with
  | .table _ changes => return { path, format, session := .joined changes }
  | .bytes _ =>
    unless content.isBlank do throw (.storeUnavailable path TableFault.otherContent.message)
    -- creating the table is its first change
    Action.write (tableFile path) (.table {} 1) fun _ =>
      .storeUnavailable path TableFault.cannotOpen.message
    return { path, format }

/-- The fault of a key that has no encoding. -/
def checkKey (key : Text) : Except Failure Unit :=
  match Utf8.encode key with
  | .ok _ => .ok ()
  | .error fault => .error (.unencodable fault)

/-- Asks for the rows of the table. The request begins before its key is checked, and a key that is
refused right after a failed request brings up the fault of that one. -/
def ask (t : FileTree) (s : Store α) (r : TableRequest) (key : Except Failure Unit) :
    Store α × Except Failure Table :=
  match tableContent t s.path with
  | .error fault => (s, .error (s.unavailable fault))
  | .ok content =>
    match s.session.begin content r, key with
    | (session, .error fault), _ => ({ s with session }, .error (s.unavailable fault))
    | (session, .ok ()), .error e =>
      ({ s with session }, .error ((session.lastFault.map s.unavailable).getD e))
    | (session, .ok ()), .ok () =>
      match session.finish content r with
      | (session, answer) => ({ s with session }, answer.mapError s.unavailable)

/-- Whether a key is known from the cache. -/
def isKnown (s : Store α) (key : Text) : Bool :=
  (Json.lookup? key s.cache).isSome || s.misses.contains key

/-- The record under a key. A key that is known from the cache is not looked for in the table. -/
def getIn (t : FileTree) (s : Store α) (key : Text) : Store α × Except Failure (Option α) :=
  if s.isKnown key || !s.isOpen then s.get {} key
  else
    match s.ask t .find (checkKey key) with
    | (s, .error e) => (s, .error e)
    | (s, .ok table) => s.get table key

/-- All records in ascending order of their keys, up to the first that cannot be read. -/
def itemsIn (t : FileTree) (s : Store α) : Store α × List (Text × α) × Option Failure :=
  if !s.isOpen then (s, s.items {})
  else
    match s.ask t .list (.ok ()) with
    | (s, .error e) => (s, [], some e)
    | (s, .ok table) => (s, s.items table)

/-- All records in ascending order of their keys. -/
def recordsIn (t : FileTree) (s : Store α) : Store α × Except Failure (List (Text × α)) :=
  match s.itemsIn t with
  | (s, rows, none) => (s, .ok rows)
  | (s, _, some e) => (s, .error e)

/-- The number of rows. -/
def sizeIn (t : FileTree) (s : Store α) : Store α × Except Failure Nat :=
  if !s.isOpen then (s, s.size {})
  else
    match s.ask t .count (.ok ()) with
    | (s, .error e) => (s, .error e)
    | (s, .ok table) => (s, s.size table)

/-- Whether a batch gives a key another record than it has. -/
def alters (table : Table) (rows : List (Text × List UInt8)) : Bool :=
  rows.any fun (key, bytes) => table.get? (.text key) ≠ some (.blob bytes)

/-- Begins to write without rows, for which the table is not looked at unless it is known to be
gone. -/
def beginPut (t : FileTree) (s : Store α) : Store α × Except Failure FileTree :=
  match tableContent t s.path with
  | .error fault => (s, .error (s.unavailable fault))
  | .ok content =>
    match s.session.begin content .put with
    | (session, r) => ({ s with session }, (r.map fun _ => t).mapError s.unavailable)

/-- The files after giving a store its table. -/
def putTable (t : FileTree) (s : Store α) (table : Table) (changes : Nat) :
    Except Failure FileTree :=
  (t.write (tableFile s.path) (.table table changes)).mapError fun fault =>
    .storeUnavailable s.path fault.message

/-- Writes a batch of records, all of them or none. A record without an encoding is found first,
then a fault of the first key, then one of the table, and last one of the other keys. -/
def insertManyIn (t : FileTree) (s : Store α) (batch : List (Text × α)) :
    Store α × Except Failure FileTree :=
  match encodeBatch s.format batch with
  | .error e => (s, .error e)
  | .ok rows =>
    match batch with
    | [] => if s.isOpen then s.beginPut t else (s, .error s.closedFailure)
    | (key, _) :: _ =>
      if !s.isOpen then (s, .error s.closedFailure)
      else
        match s.ask t .put (checkKey key) with
        | (s, .error e) => (s, .error e)
        | (s, .ok table) =>
          match s.insertMany table batch with
          | .error e => (s, .error e)
          | .ok (after, altered) =>
            -- a batch that changes nothing leaves the file alone
            if alters table rows then
              let changes := s.session.changes + 1
              match putTable t s altered changes with
              | .error e => (s, .error e)
              | .ok t => ({ after with session := after.session.written altered changes }, .ok t)
            else (after, .ok t)

/-- Writes a record and gives the one that the cache held before. -/
def insertIn (t : FileTree) (s : Store α) (key : Text) (a : α) :
    Store α × Except Failure (Option α × FileTree) :=
  let (s', r) := s.insertManyIn t [(key, a)]
  (s', r.map fun t => (Json.lookup? key s.cache, t))

/-- Writes a batch of records to the table of a store. -/
def save (s : Store α) (batch : List (Text × α)) : Action (Store α) := do
  let (s, r) := s.insertManyIn (← Action.files) batch
  Action.setFiles (← Action.ofExcept r)
  Action.log loggerName 10 ("persisted " ++ Text.ofNat batch.length ++ " record(s) into " ++
    s.tableName)
  return s

end Store

/-- The store of markings in a depstore. -/
def openMarkings (depstore : Path) : Action (Store MarkedItem) :=
  Store.openAt (depstore.child "marking") MarkedItem.format

/-- The store of call edges in a depstore. -/
def openCalls (depstore : Path) : Action (Store (List CallEdge)) :=
  Store.openAt (depstore.child "calledge") CallEdge.format.list

end CallAudit
