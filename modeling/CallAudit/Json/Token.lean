import CallAudit.Json.Basic

/-!
# JSON tokens

A JSON text is cut into tokens. Where no token starts, the last token is `bad`, so that a reader can
refuse the text at the right place. Besides the literals of the standard there are `NaN`, `Infinity`
and `-Infinity`.
-/

namespace CallAudit.Json

/-- What a reader of JSON accepts beyond the grammar. -/
structure Dialect where
  /-- How many containers that are not empty may be open at once. -/
  maxDepth : Nat
  /-- Whether a string may hold an unpaired surrogate, written as an escape. -/
  loneSurrogates : Bool
  /-- Whether a number with a fraction or an exponent, too, has a limited number of digits before
  the point. -/
  boundedWholes : Bool

/-- The most decimal digits that an integer may have; a minus before them does not count. -/
def maxIntegerDigits : Nat := 4300

/-- A lexical unit of a JSON text. -/
inductive Token
  | openArray
  | closeArray
  | openObject
  | closeObject
  | comma
  | colon
  | null
  | bool (b : Bool)
  | int (i : Int)
  | float (x : Binary64)
  | str (t : Text)
  | bad

/-- White space between tokens. -/
def isSpace (c : CodePoint) : Bool := c.val == 0x20 || c.val == 9 || c.val == 10 || c.val == 13

/-! ## Strings -/

/-- What a one-letter escape stands for. -/
def escaped? (c : CodePoint) : Option CodePoint :=
  match c.toChar? with
  | some '"' => some (CodePoint.ofNat 0x22)
  | some '\\' => some (CodePoint.ofNat 0x5c)
  | some '/' => some (CodePoint.ofNat 0x2f)
  | some 'b' => some (CodePoint.ofNat 8)
  | some 'f' => some (CodePoint.ofNat 12)
  | some 'n' => some (CodePoint.ofNat 10)
  | some 'r' => some (CodePoint.ofNat 13)
  | some 't' => some (CodePoint.ofNat 9)
  | _ => none

/-- The number written by four hexadecimal digits. -/
def hexUnit? (a b c d : CodePoint) : Option Nat := do
  let a ← CodePoint.hexDigit? a
  let b ← CodePoint.hexDigit? b
  let c ← CodePoint.hexDigit? c
  let d ← CodePoint.hexDigit? d
  return ((a * 16 + b) * 16 + c) * 16 + d

/-- Reads the inside of a string up to the closing quote; gives the code units and what follows. -/
def scanUnits : Text → Option (Text × Text)
  | [] => none
  | c :: rest =>
    if c.val = 0x22 then some ([], rest)
    -- a backslash, before `u` and four digits or before one of the letters of `escaped?`
    else if c.val = 0x5c then
      match rest with
      | [] => none
      | e :: rest =>
        if e.val = 0x75 then
          match rest with
          | h₁ :: h₂ :: h₃ :: h₄ :: rest =>
            match hexUnit? h₁ h₂ h₃ h₄ with
            | some u => (scanUnits rest).map fun (t, r) => (CodePoint.ofNat u :: t, r)
            | none => none
          | _ => none
        else
          match escaped? e with
          | some x => (scanUnits rest).map fun (t, r) => (x :: t, r)
          | none => none
    -- control characters have to be escaped
    else if c.val < 0x20 then none
    else (scanUnits rest).map fun (t, r) => (c :: t, r)

/-- A surrogate that opens a pair. -/
def isHighSurrogate (c : CodePoint) : Bool := 0xD800 ≤ c.val && c.val < 0xDC00

/-- A surrogate that closes a pair. -/
def isLowSurrogate (c : CodePoint) : Bool := 0xDC00 ≤ c.val && c.val < 0xE000

/-- Replaces every surrogate pair by the code point it stands for. -/
def joinSurrogates : Text → Text
  | [] => []
  | [c] => [c]
  | c :: d :: rest =>
    if isHighSurrogate c && isLowSurrogate d then
      CodePoint.ofNat (0x10000 + (c.val - 0xD800) * 0x400 + (d.val - 0xDC00)) :: joinSurrogates rest
    else c :: joinSurrogates (d :: rest)

/-- Reads the inside of a string up to the closing quote; gives the string and what follows. -/
def scanString (dialect : Dialect) (t : Text) : Option (Text × Text) :=
  match scanUnits t with
  | some (units, rest) =>
    let s := joinSurrogates units
    if dialect.loneSurrogates || Text.isScalar s then some (s, rest) else none
  | none => none

/-! ## Numbers -/

/-- The digits at the start of a text and what follows them. -/
def spanDigits (t : Text) : Text × Text :=
  (t.takeWhile CodePoint.isDigit, t.dropWhile CodePoint.isDigit)

/-- The number written by a run of digits. -/
def digitsValue (ds : Text) : Nat := Text.ofDecimalDigits (ds.map fun c => c.val - 48)

/-- Reads a point and at least one digit. -/
def scanFraction (t : Text) : Option (Text × Text) :=
  match t with
  | c :: rest =>
    if c.val = 0x2e then
      match spanDigits rest with
      | ([], _) => none
      | r => some r
    else none
  | [] => none

/-- Reads an optional sign; tells whether it is a minus. -/
def scanSign (t : Text) : Bool × Text :=
  match t with
  | c :: rest =>
    if c.val = 0x2d then (true, rest) else if c.val = 0x2b then (false, rest) else (false, t)
  | [] => (false, [])

/-- Reads `e` or `E`, an optional sign and at least one digit. -/
def scanExponent (t : Text) : Option (Int × Text) :=
  match t with
  | c :: rest =>
    if c.val = 0x65 || c.val = 0x45 then
      match spanDigits (scanSign rest).2 with
      | ([], _) => none
      | (ds, rest') =>
        some (if (scanSign rest).1 then -(digitsValue ds : Int) else digitsValue ds, rest')
    else none
  | [] => none

/-- Reads the digits before the point: a zero alone, or a number that does not start with zero. -/
def scanWhole (t : Text) : Option (Text × Text) :=
  match t with
  | c :: rest =>
    if c.val = 0x30 then some ([c], rest)
    else if CodePoint.isDigit c then some (spanDigits t) else none
  | [] => none

/-- Reads an unsigned number and gives it the sign. It is an integer unless a fraction or an
exponent follows. -/
def scanNumber (dialect : Dialect) (negative : Bool) (t : Text) : Option (Token × Text) :=
  match scanWhole t with
  | none => none
  | some (whole, rest) =>
    let fraction := scanFraction rest
    let rest₁ := (fraction.map (·.2)).getD rest
    let exponent := scanExponent rest₁
    let rest₂ := (exponent.map (·.2)).getD rest₁
    let isInteger := fraction.isNone && exponent.isNone
    if (isInteger || dialect.boundedWholes) && maxIntegerDigits < whole.length then none
    else if isInteger then
      let n := digitsValue whole
      some (.int (if negative then -(n : Int) else n), rest)
    else
      let places := (fraction.map (·.1)).getD []
      some (.float (.ofDecimal {
        negative, digits := digitsValue (whole ++ places),
        exponent := (exponent.map (·.1)).getD 0 - places.length }), rest₂)

/-! ## Tokens -/

/-- The literal tokens, by spelling. -/
def literals : List (Text × Token) := [
  ("[", .openArray), ("]", .closeArray), ("\x7b", .openObject), ("\x7d", .closeObject),
  (",", .comma), (":", .colon), ("null", .null), ("true", .bool true), ("false", .bool false),
  ("NaN", .float .nan), ("Infinity", .float (.infinite false)),
    ("-Infinity", .float (.infinite true))]

/-- The literal token at the start of a text. -/
def scanLiteral (t : Text) : Option (Token × Text) :=
  literals.findSome? fun (spelling, token) => (Text.after? spelling t).map fun rest => (token, rest)

/-- The token at the start of a text. -/
def scanToken (dialect : Dialect) (t : Text) : Option (Token × Text) :=
  match scanLiteral t with
  | some r => some r
  | none =>
    match t with
    | [] => none
    | c :: rest =>
      if c.val = 0x22 then (scanString dialect rest).map fun (s, r) => (.str s, r)
      -- a minus; `-Infinity` is a literal, so it has been tried before
      else if c.val = 0x2d then scanNumber dialect true rest
      else scanNumber dialect false t

/-! ### A token takes up some of the text -/

theorem scanUnits_length {t s r : Text} (h : scanUnits t = some (s, r)) : r.length < t.length := by
  fun_induction scanUnits t generalizing s with
  | case1 => simp at h
  | case2 => simp at h; simp [h.2]
  | case3 => simp at h
  -- the three cases in which the string goes on
  | case4 _ _ _ _ _ _ _ _ _ _ _ _ ih | case7 _ _ _ _ _ _ _ _ ih | case10 _ _ _ _ _ ih =>
    obtain ⟨⟨t', r'⟩, hr, he⟩ := Option.map_eq_some_iff.1 h
    simp only [Prod.mk.injEq] at he
    have := ih (he.2 ▸ hr)
    simp only [List.length_cons]; omega
  | case5 => simp at h
  | case6 => simp at h
  | case8 => simp at h
  | case9 => simp at h

theorem scanString_length {d : Dialect} {t s r : Text} (h : scanString d t = some (s, r)) :
    r.length < t.length := by
  unfold scanString at h
  split at h
  · rename_i units rest hu
    simp only at h
    split at h
    · simp only [Option.some.injEq, Prod.mk.injEq] at h
      exact h.2 ▸ scanUnits_length hu
    · simp at h
  · simp at h

theorem spanDigits_length (t : Text) : (spanDigits t).2.length ≤ t.length :=
  (List.dropWhile_sublist _).length_le

theorem scanSign_length (t : Text) : (scanSign t).2.length ≤ t.length := by
  unfold scanSign
  split
  · split
    · simp
    · split <;> simp
  · simp

theorem scanFraction_length {t ds r : Text} (h : scanFraction t = some (ds, r)) :
    r.length ≤ t.length := by
  unfold scanFraction at h
  split at h
  · rename_i c rest
    split at h
    · have hs := spanDigits_length rest
      split at h
      · simp at h
      · simp only [Option.some.injEq] at h
        rw [h] at hs
        simp only [List.length_cons] at hs ⊢
        omega
    · simp at h
  · simp at h

theorem scanExponent_length {t r : Text} {e : Int} (h : scanExponent t = some (e, r)) :
    r.length ≤ t.length := by
  unfold scanExponent at h
  split at h
  · rename_i c rest
    split at h
    · have hsign := scanSign_length rest
      have hs := spanDigits_length (scanSign rest).2
      split at h
      · simp at h
      · rename_i ds rest' _ hspan
        simp only [Option.some.injEq, Prod.mk.injEq] at h
        rw [hspan] at hs
        simp only [h.2] at hs
        simp only [List.length_cons]
        omega
    · simp at h
  · simp at h

theorem scanWhole_length {t ds r : Text} (h : scanWhole t = some (ds, r)) :
    r.length < t.length := by
  unfold scanWhole at h
  split at h
  · rename_i c rest
    split at h
    · simp only [Option.some.injEq, Prod.mk.injEq] at h
      simp [h.2]
    · split at h
      · rename_i hd
        simp only [Option.some.injEq, spanDigits, Prod.mk.injEq, List.dropWhile_cons_of_pos hd] at h
        have := (List.dropWhile_sublist (l := rest) CodePoint.isDigit).length_le
        simp only [List.length_cons, ← h.2]
        omega
      · simp at h
  · simp at h

theorem scanNumber_length {d : Dialect} {negative : Bool} {t r : Text} {token : Token}
    (h : scanNumber d negative t = some (token, r)) : r.length < t.length := by
  unfold scanNumber at h
  split at h
  · simp at h
  · rename_i whole rest hw
    have hwhole := scanWhole_length hw
    have h₁ : (((scanFraction rest).map (·.2)).getD rest).length ≤ rest.length := by
      cases hf : scanFraction rest with
      | none => simp
      | some p => simpa using scanFraction_length hf
    have h₂ : ∀ u : Text, (((scanExponent u).map (·.2)).getD u).length ≤ u.length := by
      intro u
      cases he : scanExponent u with
      | none => simp
      | some p => simpa using scanExponent_length he
    simp only at h
    split at h
    · simp at h
    split at h
    · simp only [Option.some.injEq, Prod.mk.injEq] at h
      exact h.2 ▸ hwhole
    · simp only [Option.some.injEq, Prod.mk.injEq] at h
      have := h₂ (((scanFraction rest).map (·.2)).getD rest)
      rw [h.2] at this
      omega

theorem after?_length {beginning t r : Text} (h : Text.after? beginning t = some r) :
    r.length = t.length - beginning.length := by
  unfold Text.after? at h
  split at h
  · simp only [Option.some.injEq] at h
    simp [← h]
  · simp at h

theorem length_pos_of_mem_literals : ∀ p ∈ literals, 0 < p.1.length := by decide

theorem scanLiteral_length {t r : Text} {token : Token} (h : scanLiteral t = some (token, r))
    (ht : t ≠ []) : r.length < t.length := by
  unfold scanLiteral at h
  obtain ⟨⟨spelling, tok⟩, hmem, hs⟩ := List.exists_of_findSome?_eq_some h
  obtain ⟨rest, hrest, he⟩ := Option.map_eq_some_iff.1 hs
  simp only [Prod.mk.injEq] at he
  have hlen := after?_length hrest
  have hpos := length_pos_of_mem_literals _ hmem
  have := List.length_pos_iff.2 ht
  simp only at hpos
  rw [← he.2]
  omega

theorem scanToken_length {d : Dialect} {c : CodePoint} {t r : Text} {token : Token}
    (h : scanToken d (c :: t) = some (token, r)) : r.length < (c :: t).length := by
  unfold scanToken at h
  split at h
  · rename_i hl
    simp only [Option.some.injEq] at h
    exact scanLiteral_length (h ▸ hl) (by simp)
  · simp only at h
    split at h
    · obtain ⟨⟨s, r'⟩, hs, he⟩ := Option.map_eq_some_iff.1 h
      simp only [Prod.mk.injEq] at he
      have := scanString_length hs
      simp only [List.length_cons, ← he.2]
      omega
    · split at h
      · have := scanNumber_length h
        simp only [List.length_cons]; omega
      · exact scanNumber_length h

/-- Cuts a text into tokens. -/
def tokens (dialect : Dialect) (t : Text) : List Token :=
  match t with
  | [] => []
  | c :: rest =>
    if isSpace c then tokens dialect rest
    else
      match _h : scanToken dialect (c :: rest) with
      | some (token, rest') => token :: tokens dialect rest'
      | none => [.bad]
termination_by t.length
decreasing_by
  · simp
  · exact scanToken_length (by assumption)

end CallAudit.Json
