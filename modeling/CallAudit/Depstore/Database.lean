import CallAudit.Depstore.Table

/-!
# Tables in database files

A depstore may have been written by another program, which keeps each table in a database file. Such
a file is cut into pages of one size. The first page starts with a header and lists the tables of
the file; the table that a store uses is named `data` and is a tree of pages, whose rows are in
ascending order. A row is a record of two columns, and what does not fit on its page goes on in a
chain of overflow pages.

Only files that hold a table in the layout of a store are read, with texts in UTF-8.
-/

namespace CallAudit

/-- A database file. Pages are counted from one. -/
structure Database where
  bytes : Array UInt8
  /-- The number of bytes of a page. -/
  pageSize : Nat
  /-- The number of bytes of a page that are in use. -/
  usableSize : Nat

namespace Database

/-- A number of so many bytes, the most significant first. -/
def numberAt (bytes : Array UInt8) (start : Nat) : (width : Nat) → Option Nat
  | 0 => some 0
  | width + 1 => do
    let high ← numberAt bytes start width
    return high * 256 + (← bytes[start + width]?).toNat

/-- The most bytes of a number of flexible length. -/
def maxFlexibleBytes : Nat := 9

/-- A number of flexible length, and where the bytes after it start. Every byte has seven bits of
the number and tells whether another one follows; the last possible one has eight. -/
def flexibleFrom (bytes : Array UInt8) : (left start high : Nat) → Option (Nat × Nat)
  | 0, _, _ => none
  | left + 1, start, high => do
    let b := (← bytes[start]?).toNat
    if left = 0 then return (high * 256 + b, start + 1)
    else if b < 128 then return (high * 128 + b, start + 1)
    else flexibleFrom bytes left (start + 1) (high * 128 + (b - 128))

/-- A number of flexible length. -/
def flexibleNumber (bytes : Array UInt8) (start : Nat) : Option (Nat × Nat) :=
  flexibleFrom bytes maxFlexibleBytes start 0

/-! ## Records -/

/-- What stands in a column of a record. -/
inductive Column
  | null
  | cell (c : Cell)

/-- The signed number with the given bytes in two's complement. -/
def signed (width n : Nat) : Int :=
  let range := Binary64.twoTo (8 * width)
  if 2 * n < range then n else (n : Int) - range

/-- The number of bytes that a kind of integer takes. -/
def integerWidth? : (kind : Nat) → Option Nat
  | 1 => some 1
  | 2 => some 2
  | 3 => some 3
  | 4 => some 4
  | 5 => some 6
  | 6 => some 8
  | _ => none

/-- The floating-point number with the given bits. -/
def floatOfBits (bits : Nat) : Binary64 :=
  let hidden := Binary64.twoTo 52
  let negative := decide (Binary64.twoTo 63 ≤ bits)
  let exponent := bits / hidden % 2048
  let fraction := bits % hidden
  if exponent = 2047 then (if fraction = 0 then .infinite negative else .nan)
  else if exponent = 0 then .finite negative fraction Binary64.minExponent
  else .finite negative (fraction + hidden) (Binary64.minExponent + (exponent - 1))

/-- The column of a kind that starts at a place, and where the next one starts. -/
def columnAt (payload : Array UInt8) (kind start : Nat) : Option (Column × Nat) := do
  match integerWidth? kind with
  | some width =>
    let n ← numberAt payload start width
    return (.cell (.int (signed width n)), start + width)
  | none =>
    if kind = 0 then return (.null, start)
    else if kind = 7 then return (.cell (.float (floatOfBits (← numberAt payload start 8))),
      start + 8)
    else if kind = 8 then return (.cell (.int 0), start)
    else if kind = 9 then return (.cell (.int 1), start)
    else if kind < 12 then none
    else
      let stop := start + (kind - 12) / 2
      if payload.size < stop then none
      else
        let bytes := (payload.extract start stop).toList
        return (.cell (if kind % 2 = 0 then .blob bytes else .text bytes), stop)

/-- The kinds of columns between two places. Every kind takes bytes, which the budget counts. -/
def kindsAt (payload : Array UInt8) : (budget start stop : Nat) → Option (List Nat)
  | 0, _, _ => none
  | budget + 1, start, stop =>
    if stop ≤ start then some []
    else do
      let (kind, next) ← flexibleNumber payload start
      return kind :: (← kindsAt payload budget next stop)

/-- The columns of the given kinds, from a place on. -/
def columnsAt (payload : Array UInt8) : (kinds : List Nat) → (start : Nat) → Option (List Column)
  | [], _ => some []
  | kind :: kinds, start => do
    let (column, next) ← columnAt payload kind start
    return column :: (← columnsAt payload kinds next)

/-- The columns of a record: first come their kinds, then the columns themselves. -/
def record? (payload : Array UInt8) : Option (List Column) := do
  let (headerSize, start) ← flexibleNumber payload 0
  columnsAt payload (← kindsAt payload (payload.size + 1) start headerSize) headerSize

/-! ## Pages -/

/-- Where a page starts. -/
def pageStart (d : Database) (page : Nat) : Nat := (page - 1) * d.pageSize

/-- The number of pages. -/
def pageCount (d : Database) : Nat := d.bytes.size / d.pageSize

/-- The bytes of a chain of overflow pages, as many as are asked for. -/
def overflow (d : Database) : (budget page count : Nat) → Option (List UInt8)
  | _, _, 0 => some []
  | 0, _, _ => none
  | budget + 1, page, count => do
    let start := d.pageStart page
    let next ← numberAt d.bytes start 4
    let here := min count (d.usableSize - 4)
    if page = 0 || d.bytes.size < start + 4 + here then none
    else
      return (d.bytes.extract (start + 4) (start + 4 + here)).toList ++
        (← overflow d budget next (count - here))

/-- The number of bytes of a payload that stand on its own page, where so many may stand there at
most. -/
def localSize (d : Database) (most size : Nat) : Nat :=
  let least := (d.usableSize - 12) * 32 / 255 - 23
  let kept := least + (size - least) % (d.usableSize - 4)
  if size ≤ most then size else if kept ≤ most then kept else least

/-- The payload of so many bytes that starts at a place. -/
def payloadAt (d : Database) (most size start : Nat) : Option (Array UInt8) := do
  let here := d.localSize most size
  if d.bytes.size < start + here then none
  else
    let first := d.bytes.extract start (start + here)
    if here = size then return first
    else
      let page ← numberAt d.bytes (start + here) 4
      return first ++ (← d.overflow (d.pageCount + 1) page (size - here)).toArray

/-- The kinds of pages of a tree. -/
inductive PageKind
  /-- A leaf of a tree without row numbers. -/
  | leaf
  /-- An inner page of a tree without row numbers, which has rows of its own. -/
  | inner
  /-- A leaf of a tree with row numbers. -/
  | numberedLeaf
  /-- An inner page of a tree with row numbers. -/
  | numberedInner

/-- The kind of page that a byte stands for. -/
def pageKind? (b : UInt8) : Option PageKind :=
  if b = 0x0a then some .leaf
  else if b = 0x02 then some .inner
  else if b = 0x0d then some .numberedLeaf
  else if b = 0x05 then some .numberedInner
  else none

/-- The record that starts at a place of a page. -/
def recordAt (d : Database) (kind : PageKind) (start : Nat) : Option (List Column) := do
  let (size, start) ← flexibleNumber d.bytes start
  match kind with
  | .numberedLeaf =>
    let (_, start) ← flexibleNumber d.bytes start
    record? (← d.payloadAt (d.usableSize - 35) size start)
  | _ => record? (← d.payloadAt ((d.usableSize - 12) * 64 / 255 - 23) size start)

/-- The records of a tree of pages from left to right. The tree has no more levels than the budget
allows. -/
def recordsFrom (d : Database) : (budget page : Nat) → Option (List (List Column))
  | 0, _ => none
  | budget + 1, page => do
    let base := d.pageStart page
    let header := if page = 1 then base + 100 else base
    let kind ← pageKind? (← d.bytes[header]?)
    let count ← numberAt d.bytes (header + 3) 2
    let cellStart (skipped i : Nat) : Option Nat :=
      (numberAt d.bytes (header + skipped + 2 * i) 2).map (base + ·)
    match kind with
    | .leaf | .numberedLeaf =>
      (List.range count).mapM fun i => do d.recordAt kind (← cellStart 8 i)
    | .inner =>
      let before ← (List.range count).mapM fun i => do
        let start ← cellStart 12 i
        return (← recordsFrom d budget (← numberAt d.bytes start 4)) ++
          [← d.recordAt kind (start + 4)]
      return before.flatten ++ (← recordsFrom d budget (← numberAt d.bytes (header + 8) 4))
    | .numberedInner =>
      let before ← (List.range count).mapM fun i => do
        recordsFrom d budget (← numberAt d.bytes (← cellStart 12 i) 4)
      return before.flatten ++ (← recordsFrom d budget (← numberAt d.bytes (header + 8) 4))

/-! ## Files -/

/-- The bytes that a database file starts with. -/
def signature : List UInt8 :=
  [0x53, 0x51, 0x4c, 0x69, 0x74, 0x65, 0x20, 0x66, 0x6f, 0x72, 0x6d, 0x61, 0x74, 0x20, 0x33, 0x00]

/-- The database file with the given bytes. -/
def ofBytes? (bytes : List UInt8) : Option Database := do
  let array := bytes.toArray
  let size ← numberAt array 16 2
  -- a size of two to the sixteenth is written as one
  let pageSize := if size = 1 then 65536 else size
  let reserved ← numberAt array 20 1
  let versions ← numberAt array 18 2
  let encoding ← numberAt array 56 4
  if signature.isPrefixOf bytes && 512 ≤ pageSize && versions = 0x0101 && encoding = 1 then
    return { bytes := array, pageSize, usableSize := pageSize - reserved }
  else none

/-- The text in a column. -/
def Column.text? : Column → Option (List UInt8)
  | .cell (.text bytes) => some bytes
  | _ => none

/-- The page that a table of the given name starts with, if a record describes that table. -/
def rootOf? (name : List UInt8) : List Column → Option Nat
  | [kind, title, _, .cell (.int page), _] =>
    if kind.text? = some [0x74, 0x61, 0x62, 0x6c, 0x65] && title.text? = some name then
      some page.toNat
    else none
  | _ => none

/-- The key that a column holds. -/
def keyOf? : Column → Option TableKey
  | .cell (.text bytes) => some (.textual bytes)
  | .cell (.blob bytes) => some (.blob bytes)
  | _ => none

/-- A table with a record of two columns put into it. -/
def putRecord (t : Table) : List Column → Option Table
  | [key, .cell cell] => (keyOf? key).map fun key => t.put key cell
  | _ => none

/-- The table that a store uses, empty if there is none yet. -/
def table? (d : Database) : Option Table := do
  let tables ← d.recordsFrom d.pageCount 1
  match tables.findSome? (rootOf? [0x64, 0x61, 0x74, 0x61]) with
  | none => return {}
  | some page => (← d.recordsFrom d.pageCount page).foldlM putRecord {}

/-- The number of changes that a file has seen. -/
def changes (d : Database) : Nat := (numberAt d.bytes 24 4).getD 0

end Database

end CallAudit
