import CallAudit.Depstore.Table
import CallAudit.Number.Shortest
import CallAudit.Text.Utf8

/-!
# Tables as bytes

The image of a table is a header of fixed length, followed by the rows. The header is a line that
tells the format, filled up with zeros, and ends in a byte with which no code point starts: so a
table is never taken for a text. A row is a key and a cell, each written as a letter for its kind,
the number of its bytes, a colon and the bytes.
-/

namespace CallAudit.Table

/-- The bytes of a text; a surrogate has none and is left out. -/
def bytesOf (t : Text) : List UInt8 :=
  t.flatMap fun c => if c.isSurrogate then [] else Utf8.encodePoint c

/-- The line that starts an image. -/
def formatLine : List UInt8 := bytesOf "call-audit table 1\n"

/-- The number of bytes before the mark that ends the header. -/
def markPosition : Nat := 106

/-- The byte that ends the header. -/
def headerMark : UInt8 := 0x94

/-- The header of an image. -/
def imageHeader : List UInt8 :=
  formatLine ++ List.replicate (markPosition - formatLine.length) 0 ++ [headerMark]

/-- A field: its kind, the number of its bytes, and the bytes. -/
def fieldImage (kind : CodePoint) (bytes : List UInt8) : List UInt8 :=
  bytesOf ([kind] ++ Text.ofNat bytes.length ++ ":") ++ bytes

/-- The image of a key. -/
def keyImage : TableKey → List UInt8
  | .textual b => fieldImage 't' b
  | .blob b => fieldImage 'b' b

/-- The image of a cell. -/
def cellImage : Cell → List UInt8
  | .text b => fieldImage 't' b
  | .blob b => fieldImage 'b' b
  | .int i => fieldImage 'i' (bytesOf (Text.ofInt i))
  | .float x => fieldImage 'f' (bytesOf (x.text "inf" "nan"))

/-- The image of a table. -/
def image (t : Table) : List UInt8 :=
  imageHeader ++ t.rows.flatMap fun (k, c) => keyImage k ++ cellImage c

/-- The digits at the start of bytes, as a number, and the bytes after a colon. -/
def readLength (bytes : List UInt8) : Option (Nat × List UInt8) :=
  let ds := bytes.takeWhile fun b => 48 ≤ b && b ≤ 57
  match bytes.drop ds.length with
  | b :: rest =>
    if b = 58 && !ds.isEmpty then some (Text.ofDecimalDigits (ds.map fun d => d.toNat - 48), rest)
      else none
  | [] => none

/-- Reads a field: its kind and its bytes. -/
def readField (bytes : List UInt8) : Option ((UInt8 × List UInt8) × List UInt8) :=
  match bytes with
  | kind :: rest =>
    match readLength rest with
    | some (n, rest) => if n ≤ rest.length then some ((kind, rest.take n), rest.drop n) else none
    | none => none
  | [] => none

/-- The key of a field. -/
def keyOf? : UInt8 × List UInt8 → Option TableKey
  | (116, bytes) => some (.textual bytes)
  | (98, bytes) => some (.blob bytes)
  | _ => none

/-- The integer in decimal notation. -/
def intOf? (t : Text) : Option Int :=
  match t with
  | c :: ds =>
    let digits := if c = CodePoint.ofChar '-' then ds else t
    let n : Int := Text.ofDecimalDigits (digits.map fun c => c.val - 48)
    if digits.isEmpty || !digits.all CodePoint.isDigit then none
    else some (if c = CodePoint.ofChar '-' then -n else n)
  | [] => none

/-- The cell of a field. -/
def cellOf? : UInt8 × List UInt8 → Option Cell
  | (116, bytes) => some (.text bytes)
  | (98, bytes) => some (.blob bytes)
  | (105, bytes) => ((Utf8.decode bytes).toOption.bind intOf?).map .int
  | (102, bytes) => ((Utf8.decode bytes).toOption.bind Binary64.ofText?).map .float
  | _ => none

/-- Reads rows into a table. Every row takes bytes, which the budget counts. -/
def readRows : (budget : Nat) → Table → List UInt8 → Option Table
  | _, t, [] => some t
  | 0, _, _ => none
  | budget + 1, t, bytes => do
    let (key, rest) ← readField bytes
    let (cell, rest) ← readField rest
    readRows budget (t.put (← keyOf? key) (← cellOf? cell)) rest

/-- The table with a given image. -/
def ofImage? (bytes : List UInt8) : Option Table :=
  if imageHeader.isPrefixOf bytes then
    readRows bytes.length {} (bytes.drop imageHeader.length)
  else none

end CallAudit.Table
