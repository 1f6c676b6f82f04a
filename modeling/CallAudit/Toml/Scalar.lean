import CallAudit.Toml.Lexical
import CallAudit.Value.Basic

/-!
# Numbers, dates and times of TOML

A number may have single underscores between its digits. An integer without a base has a bound on
its digits, which is the one fault that is not a fault of notation. Dates have to exist in the
calendar; times keep six digits of a fraction.
-/

namespace CallAudit.Toml

/-- Why a text is not read. -/
inductive Fault
  /-- The text is not TOML. -/
  | malformed
  /-- Containers are nested too deeply. -/
  | tooDeep
  /-- An integer has too many digits. -/
  | hugeInteger (digits : Nat)
deriving DecidableEq

/-! ## Numbers -/

/-- The most decimal digits that an integer may have. -/
def maxIntegerDigits : Nat := 4300

/-- The digits after a first one, underscores left out. -/
def moreDigits (isOne : CodePoint → Bool) : Text → Text × Text
  | [] => ([], [])
  | [c] => if isOne c then ([c], []) else ([], [c])
  | c :: d :: rest =>
    if isOne c then
      let (ds, r) := moreDigits isOne (d :: rest)
      (c :: ds, r)
    -- an underscore has to be followed by a digit
    else if c.val = 0x5f && isOne d then
      let (ds, r) := moreDigits isOne rest
      (d :: ds, r)
    else ([], c :: d :: rest)

/-- A run of digits with single underscores between them. -/
def digitRun (isOne : CodePoint → Bool) (t : Text) : Option (Text × Text) :=
  match t with
  | c :: rest =>
    if isOne c then
      let (ds, r) := moreDigits isOne rest
      some (c :: ds, r)
    else none
  | [] => none

/-- Whether a code point is a digit to the given base. -/
def isDigitTo (base : Nat) (c : CodePoint) : Bool := (CodePoint.hexDigit? c).any (· < base)

/-- The number written by digits to a base. -/
def valueTo (base : Nat) (ds : Text) : Nat :=
  ds.foldl (fun n d => base * n + (CodePoint.hexDigit? d).getD 0) 0

/-- The base that a letter after a zero stands for. -/
def baseOf? (c : CodePoint) : Option Nat :=
  match c.toChar? with
  | some 'x' => some 16
  | some 'o' => some 8
  | some 'b' => some 2
  | _ => none

/-- Reads an integer with its base. -/
def readBased (t : Text) : Option (Nat × Text) :=
  match t with
  | z :: c :: rest =>
    if z.val = 0x30 then
      match baseOf? c with
      | some base => (digitRun (isDigitTo base) rest).map fun (ds, r) => (valueTo base ds, r)
      | none => none
    else none
  | _ => none

/-- Reads an optional sign; tells whether it is a minus. -/
def readSign (t : Text) : Bool × Text :=
  match t with
  | c :: rest =>
    if c.val = 0x2d then (true, rest) else if c.val = 0x2b then (false, rest) else (false, t)
  | [] => (false, [])

/-- Reads the digits before the point: a zero, or digits that do not start with one. -/
def readWhole (t : Text) : Option (Text × Text) :=
  match t with
  | c :: rest => if c.val = 0x30 then some ([c], rest) else digitRun CodePoint.isDigit t
  | [] => none

/-- Reads a point and digits, if they are there. -/
def readFraction (t : Text) : Text × Text :=
  match t with
  | c :: rest => if c.val = 0x2e then (digitRun CodePoint.isDigit rest).getD ([], t) else ([], t)
  | [] => ([], [])

/-- Reads an exponent, if it is there. -/
def readExponent (t : Text) : Option Int × Text :=
  match t with
  | c :: rest =>
    if c.val = 0x65 || c.val = 0x45 then
      match digitRun CodePoint.isDigit (readSign rest).2 with
      | some (ds, r) =>
        let n : Int := valueTo 10 ds
        (some (if (readSign rest).1 then -n else n), r)
      | none => (none, t)
    else (none, t)
  | [] => (none, [])

/-- The integer with the given digits. -/
def integerOf (negative : Bool) (ds : Text) : Except Fault Value :=
  if maxIntegerDigits < ds.length then .error (.hugeInteger ds.length)
  else
    let n : Int := valueTo 10 ds
    .ok (.int (if negative then -n else n))

/-- Reads a decimal number: an integer unless it has a fraction or an exponent. -/
def readDecimal (t : Text) : Option (Except Fault Value × Text) :=
  let (negative, body) := readSign t
  match readWhole body with
  | none => none
  | some (whole, rest) =>
    let (fraction, rest) := readFraction rest
    let (exponent, rest) := readExponent rest
    if fraction.isEmpty && exponent.isNone then some (integerOf negative whole, rest)
    else
      let x : Decimal := {
        negative, digits := valueTo 10 (whole ++ fraction)
        exponent := exponent.getD 0 - fraction.length }
      some (.ok (.float (.ofDecimal x)), rest)

/-- Reads an infinity or a NaN. -/
def readSpecial (t : Text) : Option (Value × Text) :=
  let (negative, body) := readSign t
  match Text.after? "inf" body with
  | some rest => some (.float (.infinite negative), rest)
  | none => (Text.after? "nan" body).map fun rest => (.float .nan, rest)

/-! ## Dates and times -/

/-- Reads as many decimal digits as the width says. -/
def readDigits (width : Nat) (t : Text) : Option (Nat × Text) :=
  let ds := t.take width
  if ds.length = width && ds.all CodePoint.isDigit then some (valueTo 10 ds, t.drop width) else none

/-- Reads two digits of a number within bounds. -/
def readPair (least greatest : Nat) (t : Text) : Option (Nat × Text) :=
  (readDigits 2 t).filter fun (n, _) => least ≤ n && n ≤ greatest

/-- Whether a year has a 29 February. -/
def isLeap (year : Nat) : Bool := year % 4 == 0 && (year % 100 != 0 || year % 400 == 0)

/-- The number of days of a month. -/
def daysIn (year month : Nat) : Nat :=
  if month = 2 then if isLeap year then 29 else 28
  else if month = 4 || month = 6 || month = 9 || month = 11 then 30 else 31

/-- A number with leading zeros. -/
def padded (width n : Nat) : Text :=
  let ds := Text.ofNat n
  List.replicate (width - ds.length) (CodePoint.ofDigit 0) ++ ds

/-- Reads a date of the calendar; gives it in its notation. -/
def readDate (t : Text) : Option (Text × Text) := do
  let (year, t) ← readDigits 4 t
  let t ← Text.after? "-" t
  let (month, t) ← readPair 1 12 t
  let t ← Text.after? "-" t
  let (day, t) ← readPair 1 31 t
  if 1 ≤ year && day ≤ daysIn year month then
    some (padded 4 year ++ "-" ++ padded 2 month ++ "-" ++ padded 2 day, t)
  else none

/-- The first six digits of a fraction, filled up with zeros. -/
def microseconds (ds : Text) : Nat :=
  valueTo 10 ((ds ++ List.replicate 6 (CodePoint.ofDigit 0)).take 6)

/-- Reads a fraction of a second. -/
def readMicroseconds (t : Text) : Nat × Text :=
  match t with
  | c :: rest =>
    let ds := rest.takeWhile CodePoint.isDigit
    if c.val = 0x2e && !ds.isEmpty then (microseconds ds, rest.drop ds.length) else (0, t)
  | [] => (0, [])

/-- Reads a time; gives it in its notation, with a fraction only if it is not zero. -/
def readTime (t : Text) : Option (Text × Text) := do
  let (hour, t) ← readPair 0 23 t
  let t ← Text.after? ":" t
  let (minute, t) ← readPair 0 59 t
  let t ← Text.after? ":" t
  let (second, t) ← readPair 0 59 t
  let (fraction, t) := readMicroseconds t
  let clock := padded 2 hour ++ ":" ++ padded 2 minute ++ ":" ++ padded 2 second
  some (if fraction = 0 then clock else clock ++ "." ++ padded 6 fraction, t)

/-- The notation of an offset; an offset of zero is positive. -/
def offsetText (negative : Bool) (hours minutes : Nat) : Text :=
  (if negative && !(hours = 0 && minutes = 0) then Text.ofString "-" else "+") ++
    padded 2 hours ++ ":" ++ padded 2 minutes

/-- Reads an offset from universal time, if it is there. -/
def readOffset (t : Text) : Text × Text :=
  match t with
  | c :: rest =>
    -- `Z` stands for universal time itself
    if c.val = 0x5a || c.val = 0x7a then (offsetText false 0 0, rest)
    else if c.val = 0x2b || c.val = 0x2d then
      match readPair 0 23 rest with
      | some (hours, r) =>
        match (Text.after? ":" r).bind (readPair 0 59) with
        | some (minutes, r) => (offsetText (c.val = 0x2d) hours minutes, r)
        | none => ([], t)
      | none => ([], t)
    else ([], t)
  | [] => ([], [])

/-- Reads the time after a date, if it is there. -/
def readTimeOfDate (t : Text) : Option (Text × Text) :=
  match t with
  | c :: rest =>
    -- `T`, `t` or a space
    if c.val = 0x54 || c.val = 0x74 || c.val = 0x20 then
      (readTime rest).map fun (time, r) =>
        let (offset, r) := readOffset r
        (time ++ offset, r)
    else none
  | [] => none

/-- Reads a date, a time, or a date with a time. -/
def readMoment (t : Text) : Option (Value × Text) :=
  match readDate t with
  | some (date, rest) =>
    match readTimeOfDate rest with
    | some (time, r) => some (.moment .dateTime (date ++ " " ++ time), r)
    | none => some (.moment .date date, rest)
  | none => (readTime t).map fun (time, r) => (.moment .time time, r)

/-! ## Scalars -/

/-- Reads a truth value. -/
def readBool (t : Text) : Option (Value × Text) :=
  match Text.after? "true" t with
  | some rest => some (.bool true, rest)
  | none => (Text.after? "false" t).map fun rest => (.bool false, rest)

/-- Reads a value that is no container. -/
def readScalar (t : Text) : Except Fault (Value × Text) :=
  match (readString t).map fun (s, r) => (Value.text s, r) with
  | some r => .ok r
  | none =>
    -- a date starts with digits, so it is tried before the numbers
    match readBool t <|> readMoment t <|> (readBased t).map fun (n, r) => (.int n, r) with
    | some r => .ok r
    | none =>
      match readDecimal t with
      | some (v, rest) => v.map fun v => (v, rest)
      | none =>
        match readSpecial t with
        | some r => .ok r
        | none => .error .malformed

end CallAudit.Toml
