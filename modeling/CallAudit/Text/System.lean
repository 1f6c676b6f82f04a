import CallAudit.Text.Utf8

/-!
# Texts for the system

File names and environment variables are handed to the system as bytes. Code points are encoded in
UTF-8; the surrogates from U+DC80 to U+DCFF stand for single bytes that are not UTF-8, and other
surrogates have no bytes. A text with a zero byte is refused.

Texts with the same bytes are the same to the system, which shows them with as few byte escapes as
possible.
-/

namespace CallAudit

/-- A surrogate that stands for a byte. -/
def CodePoint.isByteEscape (c : CodePoint) : Bool := 0xDC80 ≤ c.val && c.val ≤ 0xDCFF

namespace Text

/-! ## Bytes -/

/-- The bytes of a code point that has some. -/
def pointBytes (c : CodePoint) : List UInt8 :=
  if CodePoint.isByteEscape c then [(c.val - 0xDC00).toUInt8] else Utf8.encodePoint c

/-- The number of bytes of a text that has some. -/
def byteLength (t : Text) : Nat := t.foldl (fun n c => n + (pointBytes c).length) 0

/-- The code point that stands for a byte. -/
def byteEscape (b : UInt8) : CodePoint := CodePoint.ofNat (0xDC00 + b.toNat)

/-- The code point that bytes start with, and the rest of them. A byte with which no code point
starts is escaped. -/
def firstPoint (b : UInt8) (rest : List UInt8) : CodePoint × List UInt8 :=
  match Utf8.continuations? b with
  | none => (byteEscape b, rest)
  | some n =>
    match Utf8.decode (b :: rest.take n) with
    | .ok [c] => (c, rest.drop n)
    | _ => (byteEscape b, rest)

theorem length_firstPoint_le (b : UInt8) (rest : List UInt8) :
    (firstPoint b rest).2.length ≤ rest.length := by
  unfold firstPoint
  split
  · exact Nat.le_refl _
  · split
    · simp
    · exact Nat.le_refl _

/-- The text that bytes show as. -/
def ofBytes (bytes : List UInt8) : Text :=
  match bytes with
  | [] => []
  | b :: rest => (firstPoint b rest).1 :: ofBytes (firstPoint b rest).2
termination_by bytes.length
decreasing_by exact Nat.lt_succ_of_le (length_firstPoint_le b rest)

/-- A text as the system shows it. -/
def systemShown (t : Text) : Text :=
  if t.any CodePoint.isByteEscape then ofBytes (t.flatMap pointBytes) else t

/-! ## Texts that are refused -/

/-- The first surrogate that has no bytes, with the surrogates that follow it. -/
def surrogateFault? : (position : Nat) → Text → Option Utf8.EncodeFault
  | _, [] => none
  | position, c :: rest =>
    if CodePoint.isSurrogate c && !CodePoint.isByteEscape c then
      some { start := position, run := c :: rest.takeWhile CodePoint.isSurrogate }
    else surrogateFault? (position + 1) rest

/-- Why a text cannot be handed to the system. -/
inductive SystemFault
  | zeroByte
  | unencodable (fault : Utf8.EncodeFault)
deriving DecidableEq

/-- The message for a text that cannot be handed to the system. -/
def SystemFault.message : SystemFault → Text
  | .zeroByte => "embedded null byte"
  | .unencodable fault => fault.message

/-- What keeps a text from being handed to the system. -/
def systemFault? (t : Text) : Option SystemFault :=
  match surrogateFault? 0 t with
  | some fault => some (.unencodable fault)
  | none => if t.contains (CodePoint.ofNat 0) then some .zeroByte else none

end Text

end CallAudit
