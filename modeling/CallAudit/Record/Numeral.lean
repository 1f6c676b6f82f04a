import CallAudit.Json.Token
import CallAudit.Text.Blank

/-!
# Integers given as text

A plain integer is an optional minus and digits without a leading zero. A text that is no plain
integer as it stands is cleaned and tried once more: white space around it, a sign, leading zeros
and a fraction of zeros are taken off, and single underscores are dropped. Underscores may also
stand among the leading zeros, and a minus may follow them.
-/

namespace CallAudit.Numeral

/-- Why a text is not a plain integer. -/
inductive PlainFault
  /-- The text does not have the form. -/
  | malformed
  /-- The text starts with more digits than an integer may have. -/
  | tooLong
deriving DecidableEq

/-- An optional minus, told apart from what follows. -/
def scanMinus : Text → Bool × Text
  | [] => (false, [])
  | c :: rest => if c = CodePoint.ofChar '-' then (true, rest) else (false, c :: rest)

/-- Reads a plain integer. -/
def plain (t : Text) : Except PlainFault Int :=
  match Json.scanWhole (scanMinus t).2 with
  | none => .error .malformed
  | some (whole, rest) =>
    if Json.maxIntegerDigits < whole.length then .error .tooLong
    else if rest.isEmpty then
      let n := Json.digitsValue whole
      .ok (if (scanMinus t).1 then -(n : Int) else n)
    else .error .malformed

/-- A text without the point and the zeros that may end it. -/
def withoutZeroFraction (t : Text) : Option Text :=
  let whole := t.takeWhile (· != CodePoint.ofChar '.')
  match t.drop whole.length with
  | [] => some whole
  | _ :: places =>
    if !places.isEmpty && places.all (· == CodePoint.ofChar '0') then some whole else none

/-- What follows leading zeros and the underscores among them, the last of which is given. It starts
with another digit or a minus; if nothing follows, the last one stays. -/
def afterZeros (last : CodePoint) : Text → Option Text
  | [] => some [last]
  | c :: rest =>
    if c = CodePoint.ofChar '0' || c = CodePoint.ofChar '_' then afterZeros c rest
    else if CodePoint.isDigit c || c = CodePoint.ofChar '-' then some (c :: rest)
    else none

/-- A text that starts with a digit, without its leading zeros. -/
def withoutLeadingZeros : Text → Option Text
  | [] => none
  | c :: rest =>
    if c = CodePoint.ofChar '0' then afterZeros c rest
    else if CodePoint.isDigit c then some (c :: rest)
    else none

/-- A text without its underscores, each of which stands between two other characters. -/
def withoutUnderscores (t : Text) : Option Text :=
  let parts := Text.splitOn (CodePoint.ofChar '_') t
  if parts.any List.isEmpty then none else some parts.flatten

/-- The cleaned form of a text. -/
def cleaned (t : Text) : Option Text :=
  let (negative, body) := Json.scanSign (Text.trimWhiteSpace t)
  match ((withoutZeroFraction body).bind withoutLeadingZeros).bind withoutUnderscores with
  | none => none
  | some body => some (if negative then CodePoint.ofChar '-' :: body else body)

/-- Reads an integer given as text. Only a text that is too long as it stands is refused for its
length. -/
def read (t : Text) : Except PlainFault Int :=
  match plain t with
  | .ok i => .ok i
  | .error .tooLong => .error .tooLong
  | .error .malformed =>
    match (cleaned t).map plain with
    | some (.ok i) => .ok i
    | _ => .error .malformed

end CallAudit.Numeral
