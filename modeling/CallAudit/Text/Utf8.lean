import CallAudit.Text.Quoted

/-!
# UTF-8

Texts are stored as UTF-8. Encoding refuses surrogates and names the first run of them. Decoding
refuses the first sequence that cannot be continued to a well-formed one and names the bytes that
were still in order.
-/

namespace CallAudit.Utf8

/-! ## Encoding -/

/-- A run of surrogates, which have no encoding. -/
structure EncodeFault where
  /-- Position of the first surrogate of the run. -/
  start : Nat
  /-- The run, which is not empty. -/
  run : Text
deriving DecidableEq, Repr

/-- The message for a text without encoding. -/
def EncodeFault.message (f : EncodeFault) : Text :=
  match f.run with
  | [c] => "'utf-8' codec can't encode character '" ++ Text.quotedPoint (CodePoint.ofChar '\'') c ++
      "' in position " ++ Text.ofNat f.start ++ ": surrogates not allowed"
  | _ => "'utf-8' codec can't encode characters in position " ++ Text.ofNat f.start ++ "-" ++
      Text.ofNat (f.start + f.run.length - 1) ++ ": surrogates not allowed"

/-- The UTF-8 bytes of a scalar value. -/
def encodePoint (c : CodePoint) : List UInt8 :=
  let n := c.val
  if n < 0x80 then [n.toUInt8]
  else if n < 0x800 then [(0xc0 + n / 0x40).toUInt8, (0x80 + n % 0x40).toUInt8]
  else if n < 0x10000 then
    [(0xe0 + n / 0x1000).toUInt8, (0x80 + n / 0x40 % 0x40).toUInt8, (0x80 + n % 0x40).toUInt8]
  else
    [(0xf0 + n / 0x40000).toUInt8, (0x80 + n / 0x1000 % 0x40).toUInt8,
      (0x80 + n / 0x40 % 0x40).toUInt8, (0x80 + n % 0x40).toUInt8]

/-- The first run of surrogates of a text that starts at the given position. -/
def surrogateRun? : (position : Nat) → Text → Option EncodeFault
  | _, [] => none
  | position, c :: rest =>
    if CodePoint.isSurrogate c then
      some { start := position, run := c :: rest.takeWhile CodePoint.isSurrogate }
    else surrogateRun? (position + 1) rest

/-- The UTF-8 bytes of a text. -/
def encode (t : Text) : Except EncodeFault (List UInt8) :=
  match surrogateRun? 0 t with
  | some f => .error f
  | none => .ok (t.flatMap encodePoint)

/-! ## Decoding -/

/-- Why a byte sequence is not UTF-8. -/
inductive DecodeReason
  | invalidStart
  | invalidContinuation
  | unexpectedEnd
deriving DecidableEq, Repr

/-- The bytes that could not be decoded: `length` of them from `start` on. -/
structure DecodeFault where
  start : Nat
  length : Nat
  first : UInt8
  reason : DecodeReason
deriving DecidableEq, Repr

/-- The wording of a reason. -/
def DecodeReason.message : DecodeReason → Text
  | .invalidStart => "invalid start byte"
  | .invalidContinuation => "invalid continuation byte"
  | .unexpectedEnd => "unexpected end of data"

/-- The message for bytes that are not UTF-8. -/
def DecodeFault.message (f : DecodeFault) : Text :=
  if f.length ≤ 1 then
    "'utf-8' codec can't decode byte 0x" ++ Text.hex 2 f.first.toNat ++ " in position " ++
      Text.ofNat f.start ++ ": " ++ f.reason.message
  else
    "'utf-8' codec can't decode bytes in position " ++ Text.ofNat f.start ++ "-" ++
      Text.ofNat (f.start + f.length - 1) ++ ": " ++ f.reason.message

/-- The number of continuation bytes that a first byte announces, absent if no sequence starts
so. -/
def continuations? (b : UInt8) : Option Nat :=
  if b < 0x80 then some 0
  -- continuation bytes, and the first bytes of overlong forms
  else if b < 0xc2 then none
  else if b < 0xe0 then some 1
  else if b < 0xf0 then some 2
  else if b < 0xf5 then some 3
  else none

/-- The least and greatest second byte of a sequence: overlong forms, surrogates and numbers beyond
the code space are cut off. -/
def secondBounds (b : UInt8) : UInt8 × UInt8 :=
  if b = 0xe0 then (0xa0, 0xbf)
  else if b = 0xed then (0x80, 0x9f)
  else if b = 0xf0 then (0x90, 0xbf)
  else if b = 0xf4 then (0x80, 0x8f)
  else (0x80, 0xbf)

/-- The bits that a first byte contributes. -/
def leadBits (b : UInt8) : Nat :=
  if b < 0x80 then b.toNat
  else if b < 0xe0 then b.toNat - 0xc0
  else if b < 0xf0 then b.toNat - 0xe0
  else b.toNat - 0xf0

/-- Where the decoder stands inside a sequence. -/
structure Pending where
  /-- Position of the first byte of the sequence. -/
  start : Nat
  /-- The first byte of the sequence. -/
  first : UInt8
  /-- How many bytes have been taken. -/
  taken : Nat
  /-- How many continuation bytes are still to come. -/
  missing : Nat
  /-- The bits gathered so far. -/
  bits : Nat
  /-- Bounds of the next byte. -/
  low : UInt8
  high : UInt8
deriving DecidableEq, Repr

/-- Decodes from the given position on, inside a sequence or between two. -/
def decodeFrom : (position : Nat) → Option Pending → List UInt8 → Except DecodeFault Text
  | _, none, [] => .ok []
  | _, some p, [] =>
    .error { start := p.start, length := p.taken, first := p.first, reason := .unexpectedEnd }
  | position, none, b :: rest =>
    match continuations? b with
    | none => .error { start := position, length := 1, first := b, reason := .invalidStart }
    | some 0 => (decodeFrom (position + 1) none rest).map (CodePoint.ofNat b.toNat :: ·)
    | some (n + 1) =>
      decodeFrom (position + 1)
        (some { start := position, first := b, taken := 1, missing := n + 1, bits := leadBits b,
                low := (secondBounds b).1, high := (secondBounds b).2 }) rest
  | position, some p, b :: rest =>
    if p.low ≤ b && b ≤ p.high then
      let bits := p.bits * 0x40 + (b.toNat - 0x80)
      if p.missing ≤ 1 then (decodeFrom (position + 1) none rest).map (CodePoint.ofNat bits :: ·)
      else
        decodeFrom (position + 1)
          (some { p with taken := p.taken + 1, missing := p.missing - 1, bits := bits,
                         low := 0x80, high := 0xbf }) rest
    else
      .error { start := p.start, length := p.taken, first := p.first,
               reason := .invalidContinuation }

/-- The text of UTF-8 bytes. -/
def decode (bs : List UInt8) : Except DecodeFault Text := decodeFrom 0 none bs

/-! ## Reading in blocks -/

/-- The number of bytes before a block boundary that belong to a sequence running across it, when
all bytes before the boundary are in order. -/
def carriedInto (bs : List UInt8) (boundary : Nat) : Nat :=
  let before := (bs.take boundary).reverse.take 3
  -- a sequence that runs across starts at most three bytes before the boundary
  match before.findIdx? fun b => b < 0x80 || 0xc0 ≤ b with
  | some i =>
    match before[i]? with
    | some b => if i + 1 ≤ (continuations? b).getD 0 then i + 1 else 0
    | none => 0
  | none => 0

/-- Whether a fault is a surrogate of which only the first two bytes lie in their block: it is
noticed with the next block, or with the end. -/
def DecodeFault.isCutSurrogate (size : Nat) (bs : List UInt8) (f : DecodeFault) : Bool :=
  f.first == 0xed && (bs[f.start + 1]?.any fun b => 0xa0 ≤ b && b ≤ 0xbf) &&
    (f.start + 2 == bs.length || (f.start + 2) % size == 0)

/-- A fault as a reader sees it that takes the bytes in blocks: positions count from the start of
the block, or from the start of a sequence carried over into it, and an incomplete sequence at the
end stands alone. -/
def DecodeFault.inBlocks (size : Nat) (bs : List UInt8) (f : DecodeFault) : DecodeFault :=
  let detected := match f.reason with
    | .invalidStart => f.start
    | _ => f.start + f.length
  let boundary := detected / size * size
  if f.reason = .unexpectedEnd || f.start < boundary || f.isCutSurrogate size bs then
    { f with start := 0 }
  else { f with start := f.start - boundary + carriedInto bs boundary }

end CallAudit.Utf8
