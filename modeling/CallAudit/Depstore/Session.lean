import CallAudit.Files.Tree

/-!
# Table sessions

A store does not read its table file anew for every request. It keeps what it has read, and reads
again only when the stamp of the file has changed. So a table that was put in the place of another
one is noticed by its stamp alone, and where the stamps agree the old rows go on being answered.

A session that finds its table gone remembers that there is none. A request that it has not made
before then fails without regard to what else is wrong with the file, until a look at the file shows
a table again.
-/

namespace CallAudit

/-- Why a table cannot be used. -/
inductive TableFault
  /-- The file cannot be opened. -/
  | cannotOpen
  /-- The file holds something else. -/
  | otherContent
  /-- There is no file, or one of at most one byte. -/
  | absent
deriving DecidableEq

/-- The wording of a table fault. -/
def TableFault.message : TableFault → Text
  | .cannotOpen => "unable to open database file"
  | .otherContent => "file is not a database"
  | .absent => "no such table: data"

/-! ## Stamps -/

/-- The mark by which a changed file is recognised. -/
inductive FileStamp
  /-- The number of changes that a table has seen, its creation included. -/
  | changes (n : Nat)
  /-- The bytes of another file where a table has that number, up to the last that is not zero. -/
  | bytes (b : List UInt8)
deriving DecidableEq

/-- Bytes without the zeros at their end. -/
def FileStamp.ofBytes (b : List UInt8) : FileStamp := .bytes (b.reverse.dropWhile (· == 0)).reverse

namespace FileContent

/-- The content of a file that was just created, or that holds too little to be anything. -/
def isBlank : FileContent → Bool
  | .bytes b => b.length ≤ 1
  | .table .. => false

/-- Where a stamp starts in a file. -/
def stampStart : Nat := 24

/-- Where a stamp ends in a file. -/
def stampEnd : Nat := 40

/-- The bytes of a stamp, as far as they are there. -/
def stampBytes (b : List UInt8) : List UInt8 := (b.take stampEnd).drop stampStart

/-- The stamp of a file. One that ends before its stamp does counts as unmarked. -/
def stamp : FileContent → FileStamp
  | .table _ changes => .changes changes
  | .bytes b => .ofBytes (if b.length < stampEnd then [] else stampBytes b)

/-- The table in a file. -/
def asTable (content : FileContent) : Except TableFault Table :=
  match content with
  | .table t _ => .ok t
  | content => .error (if content.isBlank then .absent else .otherContent)

/-- The content after a table has been written to a file. What changes nothing leaves no mark. -/
def withTable (content : FileContent) (t : Table) : FileContent :=
  match content with
  | .table old changes => if old = t then content else .table t (changes + 1)
  | .bytes _ => .table t 1

end FileContent

/-! ## Sessions -/

/-- What can be asked of a table. -/
inductive TableRequest
  | find
  | count
  | list
  | put
deriving DecidableEq

/-- What a session has read of its file. -/
inductive Holding
  /-- The start of a file that is no table. -/
  | other
  /-- A table, with its rows if they have been read. -/
  | table (rows : Option Table)
deriving DecidableEq

/-- How a session stands with its table file. -/
structure TableSession where
  /-- The stamp of the file when it was last read. -/
  stamp : FileStamp := .changes 1
  holding : Holding := .table (some {})
  /-- Whether the file is taken to hold a table. -/
  hasTable : Bool := true
  /-- The requests that have been made before. -/
  made : List TableRequest := []
  /-- Those among them that found no table and have to be made anew. -/
  outdated : List TableRequest := []
  /-- The fault of the last request, if it failed. -/
  lastFault : Option TableFault := none
deriving DecidableEq

namespace TableSession

/-- The session with a table that was there already, of which the rows have not been read. -/
def joined (changes : Nat) : TableSession := { stamp := .changes changes, holding := .table none }

/-- Reads a file. -/
def readAnew (content : FileContent) (s : TableSession) : TableSession × Except TableFault Table :=
  match content with
  | .table t changes => ({ s with stamp := .changes changes, holding := .table (some t) }, .ok t)
  | .bytes b =>
    if content.isBlank then ({ s with holding := .other }, .error .absent)
    else ({ s with stamp := .ofBytes (FileContent.stampBytes b), holding := .other },
      .error .otherContent)

/-- Looks at the file. What is held is good as long as the stamp is the same. -/
def look (content : FileContent) (s : TableSession) : TableSession × Except TableFault Table :=
  if content.stamp ≠ s.stamp then s.readAnew content
  else
    match s.holding with
    | .table (some t) => (s, .ok t)
    | .other => (s, .error (if content.isBlank then .absent else .otherContent))
    | .table none => s.readAnew content

/-- Makes a request ready. Where no table is known of, the file has to show one. -/
def makeReady (content : FileContent) (r : TableRequest) (s : TableSession) :
    TableSession × Except TableFault Unit :=
  let ready (s : TableSession) : TableSession :=
    { s with
      hasTable := true
      made := if s.made.contains r then s.made else r :: s.made
      outdated := s.outdated.filter (· != r) }
  if s.hasTable then (ready s, .ok ())
  else
    match s.look content with
    | (s, .ok _) => (ready s, .ok ())
    | (s, .error _) => (s, .error .absent)

/-- Begins a request. One that has been made before is ready, and one that puts rows starts with a
clean record. -/
def begin (content : FileContent) (r : TableRequest) (s : TableSession) :
    TableSession × Except TableFault Unit :=
  if s.made.contains r then (if r = .put then { s with lastFault := none } else s, .ok ())
  else
    match s.makeReady content r with
    | (s, .ok ()) => ({ s with lastFault := none }, .ok ())
    | (s, .error fault) => ({ s with lastFault := some fault }, .error fault)

/-- The rows for a request that has begun. -/
def rows (content : FileContent) (r : TableRequest) (s : TableSession) :
    TableSession × Except TableFault Table :=
  match if s.outdated.contains r then s.makeReady content r else (s, .ok ()) with
  | (s, .error fault) => (s, .error fault)
  | (s, .ok ()) =>
    match s.look content with
    | (s, .ok t) => ({ s with hasTable := true }, .ok t)
    | (s, .error .absent) =>
      ({ s with hasTable := false, outdated := r :: s.outdated }, .error .absent)
    | (s, .error fault) => (s, .error fault)

/-- Finishes a request that has begun. The fault of one that puts rows is not kept. -/
def finish (content : FileContent) (r : TableRequest) (s : TableSession) :
    TableSession × Except TableFault Table :=
  match s.rows content r with
  | (s, .ok t) => ({ s with lastFault := none }, .ok t)
  | (s, .error fault) =>
    ({ s with lastFault := if r = .put then none else some fault }, .error fault)

/-- The number of changes that the table had seen when it was last read. -/
def changes (s : TableSession) : Nat :=
  match s.stamp with
  | .changes n => n
  | .bytes _ => 0

/-- The session after it has written its table. -/
def written (t : Table) (changes : Nat) (s : TableSession) : TableSession :=
  { s with stamp := .changes changes, holding := .table (some t) }

/-- A session that sees another stamp reads the file again. -/
theorem look_of_stamp_ne {s : TableSession} {content : FileContent} (h : content.stamp ≠ s.stamp) :
    s.look content = s.readAnew content := if_pos h

/-- A session that holds nothing reads the file, whatever its stamp. -/
theorem look_of_holding_none {s : TableSession} (content : FileContent)
    (h : s.holding = .table none) : s.look content = s.readAnew content := by
  simp [look, h]

/-- What a session has read of a table it answers as long as the stamp is the same. -/
theorem look_of_stamp_eq {s : TableSession} {t : Table} {content : FileContent}
    (h : content.stamp = s.stamp) (hs : s.holding = .table (some t)) :
    s.look content = (s, .ok t) := by
  simp [look, h, hs]

end TableSession

end CallAudit
