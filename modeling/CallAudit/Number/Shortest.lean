import CallAudit.Number.Binary64

/-!
# Shortest decimal text

A finite number is written with the fewest digits that read back to it. Of several such numerals the
nearest one is taken, an exact tie going to the even digit. Numbers from `10 ^ -4` up to `10 ^ 16`
are written positionally, all others with an exponent of at least two digits.
-/

namespace CallAudit.Binary64

/-- The interval of reals that round to a positive number, in units of a quarter of `2 ^ exponent`:
its ends, and whether they belong to it. -/
structure Interval where
  low : Nat
  high : Nat
  closed : Bool

/-- The rounding interval of `m * 2 ^ e`. The gap below a power of two is half as wide. -/
def roundingInterval (m : Nat) (e : Int) : Interval :=
  { low := 4 * m - (if m = twoTo 52 && minExponent < e then 1 else 2)
    high := 4 * m + 2
    closed := m % 2 = 0 }

/-- Whether `d * 10 ^ k` lies in an interval with quarter unit `2 ^ e`. -/
def Interval.holds (i : Interval) (e : Int) (d : Nat) (k : Int) : Bool :=
  let (dn, dd) := if 0 ≤ k then (d * tenTo k.toNat, 1) else (d, tenTo (-k).toNat)
  let (un, ud) := if 0 ≤ e then (twoTo e.toNat, 1) else (1, twoTo (-e).toNat)
  let x := dn * ud
  let low := i.low * un * dd
  let high := i.high * un * dd
  if i.closed then low ≤ x && x ≤ high else low < x && x < high

/-- The decimal position of the leading digit of `num / den`. -/
def leadingPosition (num den : Nat) : Int :=
  if den ≤ num then (Text.decimalDigits (num / den)).length - 1
  else
    match (List.range 400).find? fun j => den ≤ num * tenTo j with
    | some j => -(j : Int)
    | none => -400

/-- The two multiples of `10 ^ k` around `num / den`, nearest first, an even one before an odd
one. -/
def gridNeighbours (num den : Nat) (k : Int) : List Nat :=
  let (n, d) := if 0 ≤ k then (num, den * tenTo k.toNat) else (num * tenTo (-k).toNat, den)
  let q := n / d
  let r := n % d
  if 2 * r < d || (2 * r = d && q % 2 = 0) then [q, q + 1] else [q + 1, q]

/-- The fewest digits that read back to `m * 2 ^ e`, with the position of the last of them. -/
def shortestDigits (m : Nat) (e : Int) : Nat × Int :=
  let (num, den) := if 0 ≤ e then (m * twoTo e.toNat, 1) else (m, twoTo (-e).toNat)
  let interval := roundingInterval m e
  let top := leadingPosition num den
  let attempt (n : Nat) : Option (Nat × Int) :=
    let k := top - n
    ((gridNeighbours num den k).find? fun d => interval.holds (e - 2) d k).map fun d => (d, k)
  ((List.range 18).findSome? attempt).getD (0, 0)

/-- Digits without the zeros at their end, which move into the position. -/
def dropTrailingZeros (fuel d : Nat) (k : Int) : Nat × Int :=
  match fuel with
  | 0 => (d, k)
  | fuel + 1 => if d ≠ 0 && d % 10 = 0 then dropTrailingZeros fuel (d / 10) (k + 1) else (d, k)

/-- A finite number in shortest decimal notation. -/
def finiteText (negative : Bool) (m : Nat) (e : Int) : Text :=
  let sign : Text := if negative then "-" else []
  if m = 0 then sign ++ "0.0"
  else
    let (d, k) := shortestDigits m e
    let (d, k) := dropTrailingZeros 20 d k
    let digits := Text.ofNat d
    let zero := CodePoint.ofChar '0'
    -- number of digits before the point
    let point := digits.length + k
    if -4 < point && point ≤ 16 then
      if point ≤ 0 then sign ++ "0." ++ List.replicate (-point).toNat zero ++ digits
      else if digits.length ≤ point then
        sign ++ digits ++ List.replicate (point - digits.length).toNat zero ++ ".0"
      else sign ++ digits.take point.toNat ++ "." ++ digits.drop point.toNat
    else
      let exponent := point - 1
      let mark : Text := if exponent < 0 then "e-" else "e+"
      let size := Text.ofNat exponent.natAbs
      let fraction : Text := if digits.length ≤ 1 then [] else "." ++ digits.drop 1
      sign ++ digits.take 1 ++ fraction ++ mark ++
        (if size.length < 2 then zero :: size else size)

/-- A number in shortest decimal notation, with the given words for what is not finite. -/
def text (infinity nan : Text) : Binary64 → Text
  | .finite negative m e => finiteText negative m e
  | .infinite negative => if negative then "-" ++ infinity else infinity
  | .nan => nan

end CallAudit.Binary64
