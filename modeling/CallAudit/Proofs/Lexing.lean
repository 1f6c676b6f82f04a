import CallAudit.Json.Reader
import CallAudit.Json.Printer
import CallAudit.Proofs.Encoding
import CallAudit.Proofs.Numerals
import Mathlib.Tactic

/-!
# Lexing what has been written

The parts of a printed JSON text are cut off as one token each, whatever follows them: a literal
(`Json.tokens_literal`), a string in either style (`Json.tokens_stringText`), and an integer before
whatever cannot continue a number (`Json.tokens_ofInt`). An integer with too many digits for a
reader is a bad token.
-/

namespace CallAudit.Json

variable {d : Dialect} {c : CodePoint} {t rest : Text} {token : Token}

/-- A beginning is found where it was put. -/
theorem after?_append (s rest : Text) : Text.after? s (s ++ rest) = some rest := by
  have h : s.isPrefixOf (s ++ rest) = true :=
    List.isPrefixOf_iff_prefix.2 (List.prefix_append s rest)
  rw [Text.after?, if_pos h, List.drop_left]

/-- A beginning is not found if the first characters differ. -/
theorem after?_of_head_ne {s t : Text} (hs : s ≠ []) (h : s.head? ≠ t.head?) :
    Text.after? s t = none := by
  cases s with
  | nil => exact absurd rfl hs
  | cons a s =>
    cases t with
    | nil => rfl
    | cons c t =>
      have hne : (a == c) = false := beq_eq_false_iff_ne.2 fun e => h (congrArg some e)
      simp [Text.after?, List.isPrefixOf, hne]

theorem literals_ne_nil : ∀ p ∈ literals, p.1 ≠ [] := by decide

/-- No two literals start with the same character. -/
theorem literals_heads : (literals.map fun p => p.1.head?).Nodup := by decide

theorem literals_not_space : ∀ p ∈ literals, p.1.head?.any isSpace = false := by decide

/-- A literal is recognised whatever follows it. -/
theorem scanLiteral_append {s : Text} (h : (s, token) ∈ literals) (rest : Text) :
    scanLiteral (s ++ rest) = some (token, rest) := by
  have hhead : (s ++ rest).head? = s.head? := List.head?_append_of_ne_nil s (literals_ne_nil _ h)
  obtain ⟨before, after, hsplit⟩ := List.append_of_mem h
  have hdistinct := literals_heads
  have hne := literals_ne_nil
  rw [scanLiteral]
  rw [hsplit] at hdistinct hne ⊢
  rw [List.findSome?_append, List.findSome?_eq_none_iff.2, Option.none_or, List.findSome?_cons]
  · dsimp only
    rw [after?_append]
    rfl
  · rintro ⟨s', token'⟩ hmem
    dsimp only
    -- the literals before have other first characters
    rw [after?_of_head_ne (hne _ (List.mem_append_left _ hmem))]
    · rfl
    · rw [List.map_append, List.map_cons] at hdistinct
      rw [hhead]
      exact (List.nodup_append.1 hdistinct).2.2 _ (List.mem_map_of_mem hmem) _ List.mem_cons_self

/-- No literal is found where none starts. -/
theorem scanLiteral_of_head_ne (h : ∀ p ∈ literals, p.1.head? ≠ t.head?) :
    scanLiteral t = none := by
  rw [scanLiteral, List.findSome?_eq_none_iff]
  rintro ⟨s, token⟩ hmem
  dsimp only
  rw [after?_of_head_ne (literals_ne_nil _ hmem) (h _ hmem)]
  rfl

/-- A token that is scanned comes before those of the rest. -/
theorem tokens_of_scanToken (hspace : isSpace c = false)
    (h : scanToken d (c :: t) = some (token, rest)) :
    tokens d (c :: t) = token :: tokens d rest := by
  rw [tokens, if_neg (by simp [hspace])]
  split
  · next h' =>
    rw [h] at h'
    obtain ⟨rfl, rfl⟩ := Prod.mk.inj (Option.some.inj h')
    rfl
  · next h' =>
    rw [h] at h'
    cases h'

/-- Where no token is scanned, the text is bad from there on. -/
theorem tokens_of_scanToken_none (hspace : isSpace c = false) (h : scanToken d (c :: t) = none) :
    tokens d (c :: t) = [.bad] := by
  rw [tokens, if_neg (by simp [hspace])]
  split
  · next h' =>
    rw [h] at h'
    cases h'
  · rfl

/-- A literal is a token of its own. -/
theorem tokens_literal {s : Text} (h : (s, token) ∈ literals) (rest : Text) :
    tokens d (s ++ rest) = token :: tokens d rest := by
  have hscan := scanLiteral_append h rest
  cases s with
  | nil => exact absurd rfl (literals_ne_nil _ h)
  | cons c s =>
    rw [List.cons_append] at hscan ⊢
    refine tokens_of_scanToken (literals_not_space _ h) ?_
    rw [scanToken, hscan]

/-! ## Strings -/

/-- A hexadecimal digit is read as its value. -/
theorem hexDigit?_ofHexDigit {n : Nat} (h : n < 16) :
    (CodePoint.ofHexDigit n).hexDigit? = some n := by
  have hall : ∀ m : Fin 16, (CodePoint.ofHexDigit m).hexDigit? = some m.val := by decide
  exact hall ⟨n, h⟩

theorem hex_four (n : Nat) :
    Text.hex 4 n = [.ofHexDigit (n / 16 / 16 / 16 % 16), .ofHexDigit (n / 16 / 16 % 16),
      .ofHexDigit (n / 16 % 16), .ofHexDigit (n % 16)] := rfl

/-- Four hexadecimal digits read as the number they are written for. -/
theorem hexUnit?_hex {n : Nat} (h : n < 0x10000) :
    hexUnit? (.ofHexDigit (n / 16 / 16 / 16 % 16)) (.ofHexDigit (n / 16 / 16 % 16))
      (.ofHexDigit (n / 16 % 16)) (.ofHexDigit (n % 16)) = some n := by
  have hmod (m : Nat) : (CodePoint.ofHexDigit (m % 16)).hexDigit? = some (m % 16) :=
    hexDigit?_ofHexDigit (Nat.mod_lt m (by omega))
  simp only [hexUnit?, hmod, Option.bind_eq_bind, Option.bind_some, Option.pure_def,
    Option.some.injEq]
  omega

theorem unitEscape_eq (n : Nat) :
    unitEscape n = CodePoint.ofChar '\\' :: CodePoint.ofChar 'u' :: Text.hex 4 n := by
  have h : Text.ofString "\\u" = [CodePoint.ofChar '\\', CodePoint.ofChar 'u'] := by decide
  rw [unitEscape, h]
  rfl

/-- A code point that needs no escape reads as itself. -/
theorem scanUnits_plain (hquote : c.val ≠ 0x22) (hbackslash : c.val ≠ 0x5c)
    (hcontrol : 0x20 ≤ c.val) (rest : Text) :
    scanUnits (c :: rest) = (scanUnits rest).map fun p => (c :: p.1, p.2) := by
  rw [scanUnits.eq_def]
  dsimp only
  rw [if_neg hquote, if_neg hbackslash, if_neg (Nat.not_lt.2 hcontrol)]

/-- The escape of a code unit reads as the unit. -/
theorem scanUnits_unitEscape {n : Nat} (h : n < 0x10000) (rest : Text) :
    scanUnits (unitEscape n ++ rest) = (scanUnits rest).map fun p =>
      (CodePoint.ofNat n :: p.1, p.2) := by
  simp only [unitEscape_eq, hex_four, List.cons_append, List.nil_append]
  rw [scanUnits.eq_def]
  dsimp only
  rw [if_neg (by decide), if_pos (by decide), if_pos (by decide), hexUnit?_hex h]

/-- An escape of one letter reads as what it stands for. -/
theorem scanUnits_letter (letter : Char) {s : Text} {x : CodePoint}
    (hs : s = [CodePoint.ofChar '\\', CodePoint.ofChar letter])
    (hletter : (CodePoint.ofChar letter).val ≠ 0x75)
    (hx : escaped? (CodePoint.ofChar letter) = some x) (rest : Text) :
    scanUnits (s ++ rest) = (scanUnits rest).map fun p => (x :: p.1, p.2) := by
  simp only [hs, List.cons_append, List.nil_append]
  rw [scanUnits.eq_def]
  dsimp only
  rw [if_neg (by decide), if_pos (by decide), if_neg hletter, hx]

/-- The code units as which a code point in a string is read. -/
def unitsOf (style : StringStyle) (c : CodePoint) : Text :=
  if c.val < 0x10000 || style = .raw then [c]
  else [.ofNat (0xD800 + (c.val - 0x10000) / 0x400), .ofNat (0xDC00 + (c.val - 0x10000) % 0x400)]

theorem ofNat_eq_of_val {n : Nat} (h : c.val = n) : CodePoint.ofNat n = c := by
  rw [← h, CodePoint.ofNat_val]

/-- A code point in a string is read as its code units. -/
theorem scanUnits_stringPoint (style : StringStyle) (c : CodePoint) (rest : Text) :
    scanUnits (stringPoint style c ++ rest) =
      (scanUnits rest).map fun p => (unitsOf style c ++ p.1, p.2) := by
  have hsmall (h : c.val < 0x10000) : unitsOf style c = [c] := by simp [unitsOf, h]
  have hescape (letter : Char) {s : Text} {n : Nat}
      (hs : s = [CodePoint.ofChar '\\', CodePoint.ofChar letter])
      (hletter : (CodePoint.ofChar letter).val ≠ 0x75)
      (hx : escaped? (CodePoint.ofChar letter) = some (CodePoint.ofNat n)) (hc : c.val = n)
      (hn : n < 0x10000) :
      scanUnits (s ++ rest) = (scanUnits rest).map fun p => (unitsOf style c ++ p.1, p.2) := by
    rw [scanUnits_letter letter hs hletter hx, hsmall (hc ▸ hn), ofNat_eq_of_val hc]
    rfl
  -- seven code points have an escape letter; the others are written as they are, as one escaped
  -- unit or
  -- as two
  unfold stringPoint
  split
  · next hc => exact hescape '"' (by decide) (by decide) (by decide) hc (by decide)
  · next hc => exact hescape '\\' (by decide) (by decide) (by decide) hc (by decide)
  · next hc => exact hescape 'b' (by decide) (by decide) (by decide) hc (by decide)
  · next hc => exact hescape 't' (by decide) (by decide) (by decide) hc (by decide)
  · next hc => exact hescape 'n' (by decide) (by decide) (by decide) hc (by decide)
  · next hc => exact hescape 'f' (by decide) (by decide) (by decide) hc (by decide)
  · next hc => exact hescape 'r' (by decide) (by decide) (by decide) hc (by decide)
  · next hquote hbackslash _ _ _ _ _ =>
    have hunit (h : c.val < 0x10000) :
        scanUnits (unitEscape c.val ++ rest) =
          (scanUnits rest).map fun p => (unitsOf style c ++ p.1, p.2) := by
      rw [scanUnits_unitEscape h, hsmall h, ofNat_eq_of_val rfl]
      rfl
    split
    · -- a control character
      next h => exact hunit (by omega)
    · next hcontrol =>
      split
      · next h =>
        have hsingle : unitsOf style c = [c] := by
          rw [Bool.or_eq_true, decide_eq_true_eq, decide_eq_true_eq] at h
          rcases h with h | h
          · exact hsmall (by omega)
          · simp [unitsOf, h]
        rw [hsingle]
        exact scanUnits_plain hquote hbackslash (Nat.not_lt.1 hcontrol) rest
      · next h =>
        split
        · next h => exact hunit h
        · next hlarge =>
          -- a surrogate pair, which stays two units until `joinSurrogates`
          have hlt := c.isLt
          have hstyle : ¬ style = .raw := by
            rw [Bool.or_eq_true, decide_eq_true_eq, decide_eq_true_eq] at h
            exact fun e => h (.inr e)
          rw [List.append_assoc, scanUnits_unitEscape (by omega), scanUnits_unitEscape (by omega),
            Option.map_map]
          simp [unitsOf, hlarge, hstyle]
          rfl

/-- A string that was written is scanned up to its quote, as the units that were written. -/
theorem scanUnits_flatMap (style : StringStyle) (t rest : Text) :
    scanUnits (t.flatMap (stringPoint style) ++ CodePoint.ofChar '"' :: rest) =
      some (t.flatMap (unitsOf style), rest) := by
  induction t with
  | nil =>
    rw [List.flatMap_nil, List.nil_append, scanUnits.eq_def]
    dsimp only
    rw [if_pos (by decide), List.flatMap_nil]
  | cons c t ih =>
    rw [List.flatMap_cons, List.append_assoc, scanUnits_stringPoint, ih, List.flatMap_cons]
    rfl

theorem joinSurrogates_cons (h : isHighSurrogate c = false) (t : Text) :
    joinSurrogates (c :: t) = c :: joinSurrogates t := by
  cases t with
  | nil => rfl
  | cons e t => rw [joinSurrogates, h, Bool.false_and, if_neg Bool.false_ne_true]

/-- The units of a character that is no surrogate are joined to the character. -/
theorem joinSurrogates_unitsOf (style : StringStyle) (hc : c.isSurrogate = false) (t : Text) :
    joinSurrogates (unitsOf style c ++ t) = c :: joinSurrogates t := by
  have hhigh : isHighSurrogate c = false := by
    simp only [CodePoint.isSurrogate, isHighSurrogate, Bool.and_eq_false_iff,
      decide_eq_false_iff_not] at hc ⊢
    omega
  unfold unitsOf
  split
  · exact joinSurrogates_cons hhigh t
  · next h =>
    have hlt := c.isLt
    have hlarge : ¬ c.val < 0x10000 := by
      rw [Bool.or_eq_true, decide_eq_true_eq] at h
      exact fun e => h (.inl e)
    have hpair : (isHighSurrogate (.ofNat (0xD800 + (c.val - 0x10000) / 0x400)) &&
        isLowSurrogate (.ofNat (0xDC00 + (c.val - 0x10000) % 0x400))) = true := by
      simp only [isHighSurrogate, isLowSurrogate, Bool.and_eq_true, decide_eq_true_eq]
      rw [CodePoint.val_ofNat (by omega), CodePoint.val_ofNat (by omega)]
      omega
    simp only [List.cons_append, List.nil_append]
    rw [joinSurrogates, if_pos hpair, CodePoint.val_ofNat (by omega),
      CodePoint.val_ofNat (by omega), ofNat_eq_of_val]
    omega

/-- The code units of a text of scalar values make up the text. -/
theorem joinSurrogates_flatMap (style : StringStyle) (ht : Text.isScalar t = true) :
    joinSurrogates (t.flatMap (unitsOf style)) = t := by
  induction t with
  | nil => rfl
  | cons c t ih =>
    rw [Text.isScalar_cons, Bool.and_eq_true, Bool.not_eq_true'] at ht
    rw [List.flatMap_cons, joinSurrogates_unitsOf style ht.1, ih ht.2]

theorem stringText_eq (style : StringStyle) (t : Text) :
    stringText style t = CodePoint.ofChar '"' ::
      (t.flatMap (stringPoint style) ++ [CodePoint.ofChar '"']) :=
  rfl

/-- A string is a token of its own. -/
theorem tokens_stringText (style : StringStyle) (ht : Text.isScalar t = true) (rest : Text) :
    tokens d (stringText style t ++ rest) = .str t :: tokens d rest := by
  have hliteral (r : Text) : scanLiteral (CodePoint.ofChar '"' :: r) = none :=
    scanLiteral_of_head_ne (by decide : ∀ p ∈ literals, p.1.head? ≠ some (CodePoint.ofChar '"'))
  simp only [stringText_eq, List.cons_append, List.append_assoc, List.nil_append]
  refine tokens_of_scanToken (by decide) ?_
  rw [scanToken, hliteral]
  dsimp only
  rw [if_pos (by decide), scanString, scanUnits_flatMap]
  dsimp only
  rw [joinSurrogates_flatMap style ht, ht, Bool.or_true, if_pos rfl]
  rfl

/-! ## Integers -/

/-- A text with which a number cannot go on. -/
def EndsNumber (rest : Text) : Prop :=
  ∀ c ∈ rest.head?, c.isDigit = false ∧ c.val ≠ 0x2e ∧ c.val ≠ 0x65 ∧ c.val ≠ 0x45

theorem ofDigit_val {n : Nat} (h : n < 10) : (CodePoint.ofDigit n).val = 48 + n :=
  Nat.mod_eq_of_lt (by omega)

theorem isDigit_ofDigit {n : Nat} (h : n < 10) : (CodePoint.ofDigit n).isDigit = true := by
  rw [CodePoint.isDigit, ofDigit_val h, Bool.and_eq_true, decide_eq_true_eq, decide_eq_true_eq]
  omega

/-- A number is written in digits. -/
theorem isDigit_of_mem_ofNat {n : Nat} (h : c ∈ Text.ofNat n) : c.isDigit = true := by
  obtain ⟨digit, hdigit, rfl⟩ := List.mem_map.1 h
  exact isDigit_ofDigit (Text.lt_ten_of_mem_decimalDigits hdigit)

/-- Decimal digits read as the number they are written for. -/
theorem digitsValue_ofNat (n : Nat) : digitsValue (Text.ofNat n) = n := by
  have hdigits : (Text.ofNat n).map (fun c => c.val - 48) = Text.decimalDigits n := by
    rw [Text.ofNat, List.map_map]
    refine (List.map_congr_left fun digit hdigit => ?_).trans (List.map_id _)
    show (CodePoint.ofDigit digit).val - 48 = digit
    rw [ofDigit_val (Text.lt_ten_of_mem_decimalDigits hdigit)]
    omega
  rw [digitsValue, hdigits, Text.ofDecimalDigits_decimalDigits]

/-- Digits are scanned up to the end of the number. -/
theorem spanDigits_append {ds : Text} (hds : ∀ c ∈ ds, c.isDigit = true) (hrest : EndsNumber rest) :
    spanDigits (ds ++ rest) = (ds, rest) := by
  have hstop : rest.takeWhile CodePoint.isDigit = [] ∧ rest.dropWhile CodePoint.isDigit = rest := by
    cases rest with
    | nil => exact ⟨rfl, rfl⟩
    | cons c rest =>
      have hc : ¬ c.isDigit = true := by
        rw [(hrest c rfl).1]
        exact Bool.false_ne_true
      exact ⟨List.takeWhile_cons_of_neg hc, List.dropWhile_cons_of_neg hc⟩
  rw [spanDigits, List.takeWhile_append_of_pos hds, List.dropWhile_append_of_pos hds, hstop.1,
    hstop.2, List.append_nil]

/-- The digits of a number are taken as a whole. -/
theorem scanWhole_ofNat (n : Nat) (hrest : EndsNumber rest) :
    scanWhole (Text.ofNat n ++ rest) = some (Text.ofNat n, rest) := by
  obtain ⟨digit, ds, hds, hzero⟩ := Text.exists_decimalDigits_eq_cons n
  have hdigit : digit < 10 := Text.lt_ten_of_mem_decimalDigits (hds ▸ List.mem_cons_self)
  have hnat : Text.ofNat n = CodePoint.ofDigit digit :: ds.map CodePoint.ofDigit := by
    rw [Text.ofNat, hds, List.map_cons]
  have hspan := spanDigits_append (fun c hc => isDigit_of_mem_ofNat (n := n) hc) hrest
  rw [hnat, List.cons_append] at hspan ⊢
  rw [scanWhole]
  by_cases h : digit = 0
  · rw [if_pos (by rw [ofDigit_val hdigit, h]), hzero h]
    rfl
  · rw [if_neg (by rw [ofDigit_val hdigit]; omega), if_pos (isDigit_ofDigit hdigit), hspan]

theorem scanFraction_of_ends (h : EndsNumber rest) : scanFraction rest = none := by
  cases rest with
  | nil => rfl
  | cons c rest => rw [scanFraction, if_neg (h c rfl).2.1]

theorem scanExponent_of_ends (h : EndsNumber rest) : scanExponent rest = none := by
  cases rest with
  | nil => rfl
  | cons c rest =>
    obtain ⟨-, -, hlower, hupper⟩ := h c rfl
    rw [scanExponent, if_neg (by simp [hlower, hupper])]

/-- A number is read unless it has too many digits. -/
theorem scanNumber_ofNat (negative : Bool) (n : Nat) (hrest : EndsNumber rest) :
    scanNumber d negative (Text.ofNat n ++ rest) =
      if maxIntegerDigits < (Text.decimalDigits n).length then none
      else some (.int (if negative then -(n : Int) else n), rest) := by
  have hlength : (Text.ofNat n).length = (Text.decimalDigits n).length := List.length_map _
  simp only [scanNumber, scanWhole_ofNat n hrest, scanFraction_of_ends hrest, Option.map_none,
    Option.getD_none, scanExponent_of_ends hrest, Option.isNone_none, Bool.and_self, Bool.true_or,
    Bool.true_and, decide_eq_true_eq, hlength, digitsValue_ofNat, if_true]

/-- A digit starts no literal. -/
theorem scanLiteral_digit (h : c.isDigit = true) (t : Text) : scanLiteral (c :: t) = none := by
  have hheads : ∀ p ∈ literals, p.1.head?.any CodePoint.isDigit = false := by decide
  refine scanLiteral_of_head_ne fun p hp e => ?_
  have hp' := hheads p hp
  rw [e, List.head?_cons, Option.any_some, h] at hp'
  cases hp'

/-- A minus before a digit starts no literal. -/
theorem scanLiteral_minus (h : c.isDigit = true) (t : Text) :
    scanLiteral (CodePoint.ofChar '-' :: c :: t) = none := by
  have hseconds : ∀ p ∈ literals, p.1.head? = some (CodePoint.ofChar '-') →
      p.1.tail ≠ [] ∧ p.1.tail.head?.any CodePoint.isDigit = false := by decide
  rw [scanLiteral, List.findSome?_eq_none_iff]
  rintro ⟨s, token⟩ hmem
  dsimp only
  rw [Option.map_eq_none_iff]
  by_cases hs : s.head? = some (CodePoint.ofChar '-')
  · obtain ⟨hne, hsecond⟩ := hseconds _ hmem hs
    obtain ⟨s, rfl⟩ := List.head?_eq_some_iff.1 hs
    have htail : Text.after? s (c :: t) = none := by
      refine after?_of_head_ne hne fun e => ?_
      rw [List.tail_cons, e, List.head?_cons, Option.any_some, h] at hsecond
      cases hsecond
    simpa [Text.after?, List.isPrefixOf] using htail
  · exact after?_of_head_ne (literals_ne_nil _ hmem) hs

/-- Whether an integer has no more digits than a reader takes. -/
def FitsReader (i : Int) : Prop := (Text.decimalDigits i.natAbs).length ≤ maxIntegerDigits

instance (i : Int) : Decidable (FitsReader i) := inferInstanceAs (Decidable (_ ≤ _))

/-- A number below a power of ten fits if its digits do. -/
theorem fitsReader_of_natAbs_lt {i : Int} {k : Nat} (hpos : 0 < k) (hk : k ≤ maxIntegerDigits)
    (h : i.natAbs < 10 ^ k) : FitsReader i :=
  (Text.length_decimalDigits_le hpos h).trans hk

/-- A number has a first digit. -/
theorem ofNat_eq_cons (n : Nat) : ∃ c t, Text.ofNat n = c :: t ∧ c.isDigit = true := by
  obtain ⟨digit, ds, hds, -⟩ := Text.exists_decimalDigits_eq_cons n
  have hdigit : digit < 10 := Text.lt_ten_of_mem_decimalDigits (hds ▸ List.mem_cons_self)
  exact ⟨_, _, by rw [Text.ofNat, hds, List.map_cons], isDigit_ofDigit hdigit⟩

/-- An integer is a token of its own, unless it has too many digits. -/
theorem tokens_ofInt (i : Int) (hrest : EndsNumber rest) :
    tokens d (Text.ofInt i ++ rest) = if FitsReader i then .int i :: tokens d rest else [.bad] := by
  have hresult {c : CodePoint} {t : Text} (hspace : isSpace c = false)
      (hscan : scanToken d (c :: t) =
        if maxIntegerDigits < (Text.decimalDigits i.natAbs).length then none
          else some (.int i, rest)) :
      tokens d (c :: t) = if FitsReader i then .int i :: tokens d rest else [.bad] := by
    by_cases h : FitsReader i
    · rw [if_neg (Nat.not_lt.2 h)] at hscan
      rw [if_pos h, tokens_of_scanToken hspace hscan]
    · rw [if_pos (Nat.lt_of_not_le h)] at hscan
      rw [if_neg h, tokens_of_scanToken_none hspace hscan]
  have hdigit {c : CodePoint} (hc : c.isDigit = true) : 48 ≤ c.val ∧ c.val ≤ 57 := by
    simpa [CodePoint.isDigit] using hc
  cases i with
  | ofNat n =>
    obtain ⟨c, t, hnat, hc⟩ := ofNat_eq_cons n
    have hnumber := scanNumber_ofNat (d := d) false n hrest
    have hvalue := hdigit hc
    rw [Text.ofInt, hnat, List.cons_append]
    rw [hnat, List.cons_append] at hnumber
    have hspace : isSpace c = false := by
      simp only [isSpace, Bool.or_eq_false_iff, beq_eq_false_iff_ne]
      omega
    refine hresult hspace ?_
    rw [scanToken, scanLiteral_digit hc]
    dsimp only
    rw [if_neg (by omega), if_neg (by omega), hnumber]
    rfl
  | negSucc n =>
    obtain ⟨c, t, hnat, hc⟩ := ofNat_eq_cons (n + 1)
    have hnumber := scanNumber_ofNat (d := d) true (n + 1) hrest
    rw [Text.ofInt, hnat, List.cons_append, List.cons_append]
    rw [hnat, List.cons_append] at hnumber
    refine hresult (by decide) ?_
    rw [scanToken, scanLiteral_minus hc]
    dsimp only
    rw [if_neg (by decide), if_pos (by decide), hnumber]
    rfl

end CallAudit.Json
