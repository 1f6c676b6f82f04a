/-!
# Text

Identifiers, file names and messages are sequences of Unicode code points, compared code point
by code point. A name that arrives in escaped form may hold an unpaired surrogate, so a code point
need not be a scalar value; such a name fails only where it has to be written out as bytes.
-/

namespace CallAudit

/-- A Unicode code point, surrogates included. -/
abbrev CodePoint := Fin 0x110000

/-- A sequence of code points, ordered lexicographically. -/
abbrev Text := List CodePoint

namespace CodePoint

/-- Every character is below the end of the code space. -/
theorem toNat_lt_codeSpace (c : Char) : c.toNat < 0x110000 := by
  have h := c.valid
  simp only [UInt32.isValidChar, Nat.isValidChar] at h
  change c.val.toNat < 0x110000
  omega

/-- The code point of a character. -/
def ofChar (c : Char) : CodePoint := ⟨c.toNat, toNat_lt_codeSpace c⟩

/-- The code point of a number, taken modulo the size of the code space. -/
def ofNat (n : Nat) : CodePoint := Fin.ofNat 0x110000 n

/-- A surrogate is a code point that stands for no character. -/
def isSurrogate (c : CodePoint) : Bool := 0xD800 ≤ c.val && c.val < 0xE000

/-- The character of a code point, absent for a surrogate. -/
def toChar? (c : CodePoint) : Option Char :=
  if c.isSurrogate then none else some (Char.ofNat c.val)

/-- Whether a code point is an ASCII decimal digit. -/
def isDigit (c : CodePoint) : Bool := 48 ≤ c.val && c.val ≤ 57

/-- The value of an ASCII hexadecimal digit of either case. -/
def hexDigit? (c : CodePoint) : Option Nat :=
  if 48 ≤ c.val && c.val ≤ 57 then some (c.val - 48)
  else if 97 ≤ c.val && c.val ≤ 102 then some (c.val - 87)
  else if 65 ≤ c.val && c.val ≤ 70 then some (c.val - 55)
  else none

/-- The ASCII decimal digit of a number below ten. -/
def ofDigit (d : Nat) : CodePoint := ofNat (48 + d)

/-- The lower-case ASCII hexadecimal digit of a number below sixteen. -/
def ofHexDigit (d : Nat) : CodePoint := if d < 10 then ofNat (48 + d) else ofNat (87 + d)

instance : Coe Char CodePoint := ⟨ofChar⟩

end CodePoint

namespace Text

/-- The code points of a string. -/
def ofString (s : String) : Text := s.toList.map CodePoint.ofChar

instance : Coe String Text := ⟨ofString⟩

/-- A text is made of scalar values when it holds no surrogate. -/
def isScalar (t : Text) : Bool := t.all fun c => !CodePoint.isSurrogate c

/-- Lexicographic order as a test. -/
def le (a b : Text) : Bool := !decide (b < a)

theorem le_iff {a b : Text} : le a b = true ↔ ¬ b < a := by
  rw [le, Bool.not_eq_true', decide_eq_false_iff_not]

theorem le_trans (a b c : Text) (hab : le a b = true) (hbc : le b c = true) : le a c = true := by
  rw [le_iff] at hab hbc ⊢
  exact List.not_lt.2 (List.le_trans (List.not_lt.1 hab) (List.not_lt.1 hbc))

theorem le_total (a b : Text) : (le a b || le b a) = true := by
  rw [Bool.or_eq_true, le_iff, le_iff]
  exact (List.le_total a b).imp List.not_lt.2 List.not_lt.2

/-- The decimal digits of a number, most significant first. -/
def decimalDigits (n : Nat) : List Nat :=
  if n < 10 then [n] else decimalDigits (n / 10) ++ [n % 10]

/-- The number written by decimal digits. -/
def ofDecimalDigits (ds : List Nat) : Nat := ds.foldl (fun n d => 10 * n + d) 0

/-- A natural number in decimal notation. -/
def ofNat (n : Nat) : Text := (decimalDigits n).map CodePoint.ofDigit

/-- An integer in decimal notation. -/
def ofInt : Int → Text
  | .ofNat n => ofNat n
  | .negSucc n => CodePoint.ofChar '-' :: ofNat (n + 1)

/-- A number in lower-case hexadecimal notation of a fixed width. -/
def hex : (width : Nat) → Nat → Text
  | 0, _ => []
  | width + 1, n => hex width (n / 16) ++ [CodePoint.ofHexDigit (n % 16)]

/-- The text that follows a given beginning, if it begins so. -/
def after? (beginning t : Text) : Option Text :=
  if beginning.isPrefixOf t then some (t.drop beginning.length) else none

/-- Lower-cases the ASCII letters only. -/
def lowerAscii (t : Text) : Text :=
  t.map fun c => if 65 ≤ c.val && c.val ≤ 90 then CodePoint.ofNat (c.val + 32) else c

/-- The text cut at every occurrence of a separator. -/
def splitOn (sep : CodePoint) : Text → List Text
  | [] => [[]]
  | c :: rest =>
    if c = sep then [] :: splitOn sep rest
    else match splitOn sep rest with
      | [] => [[c]]
      | first :: more => (c :: first) :: more

/-- Parts joined by a separator. -/
def join (sep : Text) (parts : List Text) : Text := List.intercalate sep parts

/-- Replaces CR LF and CR by LF. -/
def unifyNewlines : Text → Text
  | [] => []
  | c :: rest =>
    if c = CodePoint.ofChar '\r' then
      CodePoint.ofChar '\n' :: (match rest with
        | d :: rest' =>
          if d = CodePoint.ofChar '\n' then unifyNewlines rest' else unifyNewlines (d :: rest')
        | [] => [])
    else c :: unifyNewlines rest

/-- Replaces CR LF by LF; a CR that stands alone stays. -/
def joinNewlines : Text → Text
  | [] => []
  | [c] => [c]
  | c :: d :: rest =>
    if c = CodePoint.ofChar '\r' && d = CodePoint.ofChar '\n' then d :: joinNewlines rest
    else c :: joinNewlines (d :: rest)

end Text

end CallAudit
