import CallAudit.Text.Basic

/-!
# Binary floating point

Payloads may hold binary64 numbers. They are read from decimal notation, compared with integers and
written back; no arithmetic is done on them, so a number is kept as its exact mantissa and exponent.
-/

namespace CallAudit

/-- A binary64 number; a finite one has the value `± mantissa * 2 ^ exponent`. -/
inductive Binary64
  | finite (negative : Bool) (mantissa : Nat) (exponent : Int)
  | infinite (negative : Bool)
  | nan
deriving DecidableEq

/-- A decimal numeral `± digits * 10 ^ exponent`. -/
structure Decimal where
  negative : Bool
  digits : Nat
  exponent : Int
deriving DecidableEq

namespace Binary64

/-- A power of two. -/
def twoTo (n : Nat) : Nat := Nat.pow 2 n

/-- A power of ten. -/
def tenTo (n : Nat) : Nat := Nat.pow 10 n

/-- The least exponent of a finite number. -/
def minExponent : Int := -1074

/-- The greatest exponent of a finite number. -/
def maxExponent : Int := 971

/-- The quotient rounded to nearest, ties to even. -/
def roundQuotient (num den : Nat) : Nat :=
  let q := num / den
  let r := num % den
  if 2 * r < den then q
  else if den < 2 * r then q + 1
  else q + q % 2

/-- Numerator and denominator of `num / den` divided by `2 ^ e`. -/
def scaled (num den : Nat) (e : Int) : Nat × Nat :=
  if 0 ≤ e then (num, den * twoTo e.toNat) else (num * twoTo (-e).toNat, den)

/-- The zero of either sign. -/
def zero (negative : Bool) : Binary64 := .finite negative 0 minExponent

/-- The number nearest to a positive ratio, ties to even. -/
def ofRatio (negative : Bool) (num den : Nat) : Binary64 :=
  let l : Int := Nat.log2 num - Nat.log2 den
  let (n, d) := scaled num den l
  let e := max minExponent (if d ≤ n then l - 52 else l - 53)
  let (n, d) := scaled num den e
  let q := roundQuotient n d
  let (m, e) := if q = twoTo 53 then (twoTo 52, e + 1) else (q, e)
  if maxExponent < e then .infinite negative
  else if m = 0 then zero negative
  else .finite negative m e

/-- The number nearest to a decimal numeral. -/
def ofDecimal (x : Decimal) : Binary64 :=
  if x.digits = 0 then zero x.negative
  else
    let magnitude := (Text.decimalDigits x.digits).length + x.exponent
    if 400 < magnitude then .infinite x.negative
    else if magnitude < -400 then zero x.negative
    else if 0 ≤ x.exponent then ofRatio x.negative (x.digits * tenTo x.exponent.toNat) 1
    else ofRatio x.negative x.digits (tenTo (-x.exponent).toNat)

/-- The integer that a finite number equals, absent if it has a fraction. -/
def toInt? : Binary64 → Option Int
  | .finite negative m e =>
    let magnitude : Option Nat :=
      if 0 ≤ e then some (m * twoTo e.toNat)
      else if m % twoTo (-e).toNat = 0 then some (m / twoTo (-e).toNat) else none
    magnitude.map fun n => if negative then -(n : Int) else n
  | _ => none

/-- Whether the number is finite. -/
def isFinite : Binary64 → Bool
  | .finite .. => true
  | _ => false

/-- The exact order of `a * 2 ^ e` and `b * 2 ^ f`. -/
def ltScaled (a e b f : Int) : Bool :=
  let g := min e f
  decide (a * twoTo (e - g).toNat < b * twoTo (f - g).toNat)

/-- The mantissa with its sign. -/
def signed (negative : Bool) (m : Nat) : Int := if negative then -(m : Int) else m

/-- The numeric order; nothing is below or above a NaN. -/
def lt : Binary64 → Binary64 → Bool
  | .nan, _ => false
  | _, .nan => false
  | .infinite a, .infinite b => a && !b
  | .infinite a, .finite .. => a
  | .finite .., .infinite b => !b
  | .finite s m e, .finite t n f => ltScaled (signed s m) e (signed t n) f

/-- Numeric equality; a NaN equals nothing. -/
def eq : Binary64 → Binary64 → Bool
  | .nan, _ => false
  | _, .nan => false
  | a, b => !lt a b && !lt b a

/-- An integer as an exact number, beyond the range of binary64 if need be. -/
def ofInt (i : Int) : Binary64 := .finite (i < 0) i.natAbs 0

/-- Reads `123`, `1.5`, `-2e+10`, `inf` or `nan`, the words in any case. -/
def ofText? (t : Text) : Option Binary64 :=
  let (negative, body) := match t with
    | c :: rest =>
      if c = CodePoint.ofChar '-' then (true, rest)
      else if c = CodePoint.ofChar '+' then (false, rest) else (false, t)
    | [] => (false, [])
  let whole := body.takeWhile CodePoint.isDigit
  let rest := body.drop whole.length
  let (fraction, rest) := match rest with
    | c :: more =>
      if c = CodePoint.ofChar '.' then (more.takeWhile CodePoint.isDigit,
        more.dropWhile CodePoint.isDigit)
      else ([], rest)
    | [] => ([], [])
  let value (exponent : Int) : Option Binary64 :=
    if whole.isEmpty && fraction.isEmpty then none
    else some (ofDecimal {
      negative, digits := Text.ofDecimalDigits ((whole ++ fraction).map fun c => c.val - 48),
      exponent := exponent - fraction.length })
  let word := Text.lowerAscii body
  if word = "inf" || word = "infinity" then some (.infinite negative)
  else if word = "nan" then some .nan
  else match rest with
    | [] => value 0
    | e :: more =>
      if e = CodePoint.ofChar 'e' || e = CodePoint.ofChar 'E' then
        let (down, ds) := match more with
          | c :: ds =>
            if c = CodePoint.ofChar '-' then (true, ds)
            else if c = CodePoint.ofChar '+' then (false, ds) else (false, more)
          | [] => (false, [])
        if ds.isEmpty || !ds.all CodePoint.isDigit then none
        else
          let n := Text.ofDecimalDigits (ds.map fun c => c.val - 48)
          value (if down then -(n : Int) else n)
      else none

end Binary64

end CallAudit
