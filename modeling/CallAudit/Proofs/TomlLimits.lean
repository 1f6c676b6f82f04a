import CallAudit.Toml.Reader
import Mathlib.Tactic

/-!
# When a TOML document is refused

Apart from faults of notation, a document is refused if its containers are nested too deeply or if
an integer has too many digits. Both take a text that is large enough: every open container has cost
a bracket, and the digits of an integer are digits of the text (`Fault.DueTo`, `read_dueTo`). The
argument follows the readers. Each of them leaves an end of the text that it was given (`Leaves`,
`Reads`), so brackets and digits are counted once, and a step of reading a value pays for the
container that it opens with the bracket that it takes (`Advances`).
-/

namespace CallAudit.Toml

variable {α β : Type} {s t rest : Text} {r : Option (α × Text)}

/-! ## What readers leave -/

/-- What is left after reading is an end of the text. -/
def Leaves (t : Text) (r : Option (α × Text)) : Prop := ∀ a rest, r = some (a, rest) → rest <:+ t

theorem leaves_none : Leaves t (none : Option (α × Text)) := nofun

theorem leaves_some {a : α} (h : rest <:+ t) : Leaves t (some (a, rest)) := by
  rintro _ _ ⟨⟩
  exact h

namespace Leaves

/-- What is left of an end of a text is an end of the text. -/
theorem mono (h : Leaves s r) (hs : s <:+ t) : Leaves t r := fun a rest hr => (h a rest hr).trans hs

/-- What becomes of the value that was read does not matter for what is left. -/
theorem map {f : α × Text → β × Text} (h : Leaves t r) (hf : ∀ a rest, (f (a, rest)).2 = rest) :
    Leaves t (r.map f) := by
  intro b rest hr
  obtain ⟨⟨a, rest'⟩, ha, hb⟩ := Option.map_eq_some_iff.1 hr
  have hrest := hf a rest'
  rw [hb] at hrest
  subst hrest
  exact h a _ ha

/-- Readers in a row leave an end of the text. -/
theorem bind {f : α × Text → Option (β × Text)} (h : Leaves t r)
    (hf : ∀ a rest, Leaves rest (f (a, rest))) : Leaves t (r.bind f) := by
  intro b rest hr
  obtain ⟨⟨a, rest'⟩, ha, hb⟩ := Option.bind_eq_some_iff.1 hr
  exact (hf a rest' b rest hb).trans (h a rest' ha)

/-- Two readers that are tried in turn leave an end of the text if both do. -/
theorem orElse {r' : Option (α × Text)} (h : Leaves t r) (h' : Leaves t r') :
    Leaves t (r <|> r') := by
  cases r with
  | none => exact h'
  | some p => exact h

end Leaves

/-! ### Blanks and comments -/

theorem skipBlanks_suffix (t : Text) : skipBlanks t <:+ t := List.dropWhile_suffix _

/-- A comment is skipped from the front. -/
theorem skipComment_suffix (h : skipComment t = some rest) : rest <:+ t := by
  unfold skipComment at h
  split at h
  · split at h
    · split at h
      · cases h
      · obtain rfl := Option.some.inj h
        exact (List.dropWhile_suffix _).trans (List.suffix_cons _ _)
    · exact Option.some.inj h ▸ List.suffix_refl _
  · exact Option.some.inj h ▸ List.suffix_refl _

/-- Blank lines and comments are skipped from the front. -/
theorem skipLines_suffix {inComment : Bool} (h : skipLines inComment t = some rest) :
    rest <:+ t := by
  fun_induction skipLines inComment t with
  | case1 => exact Option.some.inj h ▸ List.suffix_refl _
  | case2 c t' _ ih => exact (ih h).trans (List.suffix_cons _ _)
  | case3 => cases h
  | case4 c t' _ _ ih => exact (ih h).trans (List.suffix_cons _ _)
  | case5 c t' _ ih => exact (ih h).trans (List.suffix_cons _ _)
  | case6 c t' _ _ ih => exact (ih h).trans (List.suffix_cons _ _)
  | case7 => exact Option.some.inj h ▸ List.suffix_refl _

/-! ### Strings -/

/-- Reading a string in apostrophes leaves an end of the text. -/
theorem readLiteral_leaves (t : Text) : Leaves t (readLiteral t) := by
  unfold readLiteral
  dsimp only
  split
  · next rest h =>
    split
    · exact leaves_none
    · exact leaves_some ((List.suffix_cons _ _).trans (h ▸ List.drop_suffix _ _))
  · exact leaves_none

/-- Reading up to three apostrophes leaves an end of the text. -/
theorem untilTriple_leaves (t : Text) : Leaves t (untilTriple t) := by
  fun_induction untilTriple t with
  | case1 a b c rest h =>
    exact leaves_some ((((List.suffix_cons _ _).trans (List.suffix_cons _ _))).trans
      (List.suffix_cons _ _))
  | case2 a b c rest h ih => exact (ih.map fun _ _ => rfl).mono (List.suffix_cons _ _)
  | case3 => exact leaves_none

/-- Marks before the closing ones that belong to a string are taken from the front. -/
theorem extraClosing_suffix (mark : CodePoint) (s t : Text) : (extraClosing mark s t).2 <:+ t := by
  unfold extraClosing
  split
  · split
    · split
      · split
        · exact (List.suffix_cons _ _).trans (List.suffix_cons _ _)
        · exact List.suffix_cons _ _
      · exact List.nil_suffix
    · exact List.suffix_refl _
  · exact List.suffix_refl _

theorem skipFirstLineEnd_suffix (t : Text) : skipFirstLineEnd t <:+ t := by
  unfold skipFirstLineEnd
  split
  · split
    · exact List.suffix_cons _ _
    · exact List.suffix_refl _
  · exact List.suffix_refl _

/-- Reading lines in apostrophes leaves an end of the text. -/
theorem readLiteralLines_leaves (t : Text) : Leaves t (readLiteralLines t) := by
  unfold readLiteralLines
  split
  · next s rest h =>
    split
    · exact leaves_none
    · refine leaves_some ((extraClosing_suffix _ _ _).trans ?_)
      exact (untilTriple_leaves _ _ _ h).trans (skipFirstLineEnd_suffix t)
  · exact leaves_none

/-- A character that is put before what was read does not change what is left. -/
theorem prepend_leaves {r : Option (Text × Text)} (c : CodePoint) (h : Leaves t r) :
    Leaves t (prepend c r) :=
  h.map fun _ _ => rfl

/-- A basic string: every round takes at least one character off the text. -/
theorem readBasic_leaves (lines : Bool) (omitted : Omitted) (t : Text) :
    Leaves t (readBasic lines omitted t) := by
  fun_induction readBasic lines omitted t with
  | case1 | case4 | case8 | case10 | case14 | case15 | case17 | case18 | case20 | case21 =>
    exact leaves_none
  | case2 | case3 | case5 =>
    rename_i ih
    exact ih.mono (List.suffix_cons _ _)
  | case11 | case12 =>
    rename_i ih
    exact ih.mono (List.suffix_append [_, _] _)
  | case6 => exact leaves_some (List.suffix_append [_, _, _] _)
  | case9 => exact leaves_some (List.suffix_cons _ _)
  | case7 | case22 =>
    rename_i ih
    exact prepend_leaves _ (ih.mono (List.suffix_cons _ _))
  | case13 =>
    rename_i ih
    exact prepend_leaves _ (ih.mono (List.suffix_append [_, _, _, _, _, _] _))
  | case16 =>
    rename_i ih
    exact prepend_leaves _ (ih.mono (List.suffix_append [_, _, _, _, _, _, _, _, _, _] _))
  | case19 =>
    rename_i ih
    exact prepend_leaves _ (ih.mono (List.suffix_append [_, _] _))

/-- Reading lines in quotes leaves an end of the text. -/
theorem readBasicLines_leaves (t : Text) : Leaves t (readBasicLines t) := by
  intro a rest h
  obtain ⟨⟨s, rest'⟩, hs, hrest⟩ := Option.map_eq_some_iff.1 h
  have hclosing := extraClosing_suffix quote s rest'
  have hresult : extraClosing quote s rest' = (a, rest) := hrest
  rw [hresult] at hclosing
  exact (hclosing.trans (readBasic_leaves _ _ _ _ _ hs)).trans (skipFirstLineEnd_suffix t)

/-- Reading a string of any kind leaves an end of the text. -/
theorem readString_leaves (t : Text) : Leaves t (readString t) := by
  unfold readString
  split
  · split
    · split
      · exact (readBasicLines_leaves _).mono (List.suffix_append [_, _, _] _)
      · exact (readBasic_leaves _ _ _).mono (List.suffix_cons _ _)
    · split
      · split
        · exact (readLiteralLines_leaves _).mono (List.suffix_append [_, _, _] _)
        · exact (readLiteral_leaves _).mono (List.suffix_cons _ _)
      · exact leaves_none
  · split
    · exact (readBasic_leaves _ _ _).mono (List.suffix_cons _ _)
    · split
      · exact (readLiteral_leaves _).mono (List.suffix_cons _ _)
      · exact leaves_none
  · exact leaves_none

/-! ### Keys -/

/-- Reading a bare or a quoted part of a key leaves an end of the text. -/
theorem readKeyPart_leaves (t : Text) : Leaves t (readKeyPart t) := by
  unfold readKeyPart
  split
  · split
    · exact leaves_some (List.dropWhile_suffix _)
    · split
      · exact (readBasic_leaves _ _ _).mono (List.suffix_cons _ _)
      · split
        · exact (readLiteral_leaves _).mono (List.suffix_cons _ _)
        · exact leaves_none
  · exact leaves_none

/-- Reading the parts of a key between dots leaves an end of the text. -/
theorem readKeyParts_leaves (budget : Nat) (t : Text) : Leaves t (readKeyParts budget t) := by
  induction budget generalizing t with
  | zero => exact leaves_none
  | succ budget ih =>
    rw [readKeyParts.eq_def]
    dsimp only
    split
    · exact leaves_none
    · next part rest hpart =>
      have hrest := readKeyPart_leaves t part rest hpart
      split
      · next c rest' hblanks =>
        have hsuffix : c :: rest' <:+ t := hblanks ▸ (skipBlanks_suffix rest).trans hrest
        split
        · refine ((ih _).map fun _ _ => rfl).mono ?_
          exact ((skipBlanks_suffix rest').trans (List.suffix_cons _ _)).trans hsuffix
        · exact leaves_some hsuffix
      · exact leaves_some List.nil_suffix

theorem readKey_leaves (t : Text) : Leaves t (readKey t) := readKeyParts_leaves _ t

/-! ### Numbers -/

/-- What follows a beginning of a text is an end of it. -/
theorem after?_suffix {beginning : Text} (h : Text.after? beginning t = some rest) :
    rest <:+ t := by
  unfold Text.after? at h
  split at h
  · exact Option.some.inj h ▸ List.drop_suffix _ _
  · cases h

/-- A run of digits takes its digits off the text. -/
theorem moreDigits_leaves (isOne : CodePoint → Bool) (t : Text) :
    (moreDigits isOne t).2 <:+ t ∧ (moreDigits isOne t).1.length ≤ t.countP isOne := by
  fun_induction moreDigits isOne t with
  | case1 => exact ⟨List.suffix_refl _, Nat.le_refl _⟩
  | case2 c hc => exact ⟨List.nil_suffix, by simp [hc]⟩
  | case3 c hc => exact ⟨List.suffix_refl _, Nat.zero_le _⟩
  | case4 c d t hc ds r hmore ih =>
    rw [hmore] at ih
    rw [List.countP_cons_of_pos hc]
    exact ⟨ih.1.trans (List.suffix_cons _ _), Nat.succ_le_succ ih.2⟩
  | case5 c d t hc hd ds r hmore ih =>
    rw [hmore] at ih
    obtain ⟨-, hd⟩ := Bool.and_eq_true_iff.1 hd
    rw [List.countP_cons_of_neg hc, List.countP_cons_of_pos hd]
    exact ⟨ih.1.trans (List.suffix_append [_, _] _), Nat.succ_le_succ ih.2⟩
  | case6 => exact ⟨List.suffix_refl _, Nat.zero_le _⟩

/-- Reading digits and the underscores between them leaves an end of the text. -/
theorem digitRun_leaves (isOne : CodePoint → Bool) (t : Text) : Leaves t (digitRun isOne t) := by
  unfold digitRun
  split
  · next c rest =>
    split
    · exact leaves_some ((moreDigits_leaves isOne rest).1.trans (List.suffix_cons _ _))
    · exact leaves_none
  · exact leaves_none

/-- The digits that were read are digits of the text. -/
theorem length_digitRun {isOne : CodePoint → Bool} {ds : Text}
    (h : digitRun isOne t = some (ds, rest)) : ds.length ≤ t.countP isOne := by
  unfold digitRun at h
  split at h
  · next c t' =>
    split at h
    · next hc =>
      obtain ⟨rfl, -⟩ := Prod.mk.inj (Option.some.inj h)
      rw [List.countP_cons_of_pos hc]
      exact Nat.succ_le_succ (moreDigits_leaves isOne t').2
    · cases h
  · cases h

/-- Reading an integer to another base leaves an end of the text. -/
theorem readBased_leaves (t : Text) : Leaves t (readBased t) := by
  unfold readBased
  split
  · split
    · split
      · exact ((digitRun_leaves _ _).map fun _ _ => rfl).mono (List.suffix_append [_, _] _)
      · exact leaves_none
    · exact leaves_none
  · exact leaves_none

theorem readSign_suffix (t : Text) : (readSign t).2 <:+ t := by
  unfold readSign
  split
  · split
    · exact List.suffix_cons _ _
    · split
      · exact List.suffix_cons _ _
      · exact List.suffix_refl _
  · exact List.suffix_refl _

/-- Reading the whole part of a number leaves an end of the text. -/
theorem readWhole_leaves (t : Text) : Leaves t (readWhole t) := by
  unfold readWhole
  split
  · split
    · exact leaves_some (List.suffix_cons _ _)
    · exact digitRun_leaves _ _
  · exact leaves_none

/-- The whole part of a number has no more digits than the text. -/
theorem length_readWhole {whole : Text} (h : readWhole t = some (whole, rest)) :
    whole.length ≤ t.countP CodePoint.isDigit := by
  unfold readWhole at h
  split at h
  · next c t' =>
    split at h
    · next hc =>
      obtain ⟨rfl, -⟩ := Prod.mk.inj (Option.some.inj h)
      have hdigit : c.isDigit = true := by simp [CodePoint.isDigit, hc]
      rw [List.countP_cons_of_pos hdigit]
      exact Nat.succ_le_succ (Nat.zero_le _)
    · exact length_digitRun h
  · cases h

/-- A fraction is taken from the front, if there is one. -/
theorem readFraction_suffix (t : Text) : (readFraction t).2 <:+ t := by
  unfold readFraction
  split
  · next c rest =>
    split
    · cases hrun : digitRun CodePoint.isDigit rest with
      | none => exact List.suffix_refl _
      | some p => exact (digitRun_leaves _ _ _ _ hrun).trans (List.suffix_cons _ _)
    · exact List.suffix_refl _
  · exact List.suffix_refl _

/-- An exponent is taken from the front, if there is one. -/
theorem readExponent_suffix (t : Text) : (readExponent t).2 <:+ t := by
  unfold readExponent
  split
  · next c rest =>
    split
    · split
      · next ds r hrun =>
        exact ((digitRun_leaves _ _ _ _ hrun).trans (readSign_suffix rest)).trans
          (List.suffix_cons _ _)
      · exact List.suffix_refl _
    · exact List.suffix_refl _
  · exact List.suffix_refl _

/-- Reading a decimal number leaves an end of the text. -/
theorem readDecimal_leaves (t : Text) : Leaves t (readDecimal t) := by
  unfold readDecimal
  dsimp only
  split
  · exact leaves_none
  · next whole rest hwhole =>
    have hrest := (readWhole_leaves _ _ _ hwhole).trans (readSign_suffix t)
    have hend := ((readExponent_suffix _).trans (readFraction_suffix rest)).trans hrest
    split
    · exact leaves_some hend
    · exact leaves_some hend

theorem readSpecial_leaves (t : Text) : Leaves t (readSpecial t) := by
  unfold readSpecial
  dsimp only
  split
  · next rest h => exact leaves_some ((after?_suffix h).trans (readSign_suffix t))
  · intro a rest h
    obtain ⟨rest', hrest', hresult⟩ := Option.map_eq_some_iff.1 h
    obtain ⟨-, rfl⟩ := Prod.mk.inj hresult
    exact (after?_suffix hrest').trans (readSign_suffix t)

/-! ### Dates and times -/

/-- Reading a fixed number of digits leaves an end of the text. -/
theorem readDigits_leaves (width : Nat) (t : Text) : Leaves t (readDigits width t) := by
  unfold readDigits
  dsimp only
  split
  · exact leaves_some (List.drop_suffix _ _)
  · exact leaves_none

theorem readPair_leaves (least greatest : Nat) (t : Text) :
    Leaves t (readPair least greatest t) := by
  intro a rest h
  exact readDigits_leaves 2 t a rest (Option.filter_eq_some_iff.1 h).1

/-- What follows a beginning of a text may be read further. -/
theorem leaves_after? {beginning : Text} {f : Text → Option (β × Text)}
    (hf : ∀ rest, Leaves rest (f rest)) : Leaves t ((Text.after? beginning t).bind f) := by
  intro b rest h
  obtain ⟨rest', hrest', hb⟩ := Option.bind_eq_some_iff.1 h
  exact (hf rest' b rest hb).trans (after?_suffix hrest')

/-- Reading a date leaves an end of the text. -/
theorem readDate_leaves (t : Text) : Leaves t (readDate t) := by
  refine (readDigits_leaves 4 t).bind fun year t => ?_
  refine leaves_after? fun t => (readPair_leaves 1 12 t).bind fun month t => ?_
  refine leaves_after? fun t => (readPair_leaves 1 31 t).bind fun day t => ?_
  dsimp only
  split
  · exact leaves_some (List.suffix_refl _)
  · exact leaves_none

theorem readMicroseconds_suffix (t : Text) : (readMicroseconds t).2 <:+ t := by
  unfold readMicroseconds
  split
  · dsimp only
    split
    · exact (List.drop_suffix _ _).trans (List.suffix_cons _ _)
    · exact List.suffix_refl _
  · exact List.suffix_refl _

/-- Reading a time leaves an end of the text. -/
theorem readTime_leaves (t : Text) : Leaves t (readTime t) := by
  refine (readPair_leaves 0 23 t).bind fun hour t => ?_
  refine leaves_after? fun t => (readPair_leaves 0 59 t).bind fun minute t => ?_
  refine leaves_after? fun t => (readPair_leaves 0 59 t).bind fun second t => ?_
  exact leaves_some (readMicroseconds_suffix t)

/-- An offset from universal time is taken from the front, if there is one. -/
theorem readOffset_suffix (t : Text) : (readOffset t).2 <:+ t := by
  unfold readOffset
  split
  · next c rest =>
    split
    · exact List.suffix_cons _ _
    · split
      · split
        · next hours r hhours =>
          split
          · next minutes r' hminutes =>
            have hend : r' <:+ r := leaves_after? (readPair_leaves 0 59) _ _ hminutes
            exact (hend.trans (readPair_leaves _ _ _ _ _ hhours)).trans (List.suffix_cons _ _)
          · exact List.suffix_refl _
        · exact List.suffix_refl _
      · exact List.suffix_refl _
  · exact List.suffix_refl _

theorem readTimeOfDate_leaves (t : Text) : Leaves t (readTimeOfDate t) := by
  unfold readTimeOfDate
  split
  · next c rest =>
    split
    · intro a rest' h
      obtain ⟨⟨time, r⟩, htime, hresult⟩ := Option.map_eq_some_iff.1 h
      obtain ⟨-, rfl⟩ := Prod.mk.inj hresult
      exact ((readOffset_suffix r).trans (readTime_leaves _ _ _ htime)).trans (List.suffix_cons _ _)
    · exact leaves_none
  · exact leaves_none

/-- Reading a date, a time or both leaves an end of the text. -/
theorem readMoment_leaves (t : Text) : Leaves t (readMoment t) := by
  unfold readMoment
  split
  · next date rest hdate =>
    have hrest := readDate_leaves t date rest hdate
    split
    · next time r htime => exact leaves_some ((readTimeOfDate_leaves _ _ _ htime).trans hrest)
    · exact leaves_some hrest
  · exact (readTime_leaves t).map fun _ _ => rfl

theorem readBool_leaves (t : Text) : Leaves t (readBool t) := by
  unfold readBool
  split
  · next rest h => exact leaves_some (after?_suffix h)
  · intro a rest h
    obtain ⟨rest', hrest', hresult⟩ := Option.map_eq_some_iff.1 h
    obtain ⟨-, rfl⟩ := Prod.mk.inj hresult
    exact after?_suffix hrest'

/-! ## Faults -/

/-- Whether a code point opens an array or an inline table. -/
def isOpening (c : CodePoint) : Bool := c.val == 0x5b || c.val == 0x7b

/-- An end of a text has no more characters of a kind than the text. -/
theorem countP_le_of_suffix {p : CodePoint → Bool} (h : s <:+ t) : s.countP p ≤ t.countP p :=
  h.sublist.countP_le

/-- A fault is one of notation, or the text, read below the given depth, has enough opening brackets
to go too deep or enough digits for a huge integer. -/
def Fault.DueTo (above : Nat) (t : Text) : Fault → Prop
  | .malformed => True
  | .tooDeep => maxDepth < above + 3 * t.countP isOpening
  | .hugeInteger digits => maxIntegerDigits < digits ∧ digits ≤ t.countP CodePoint.isDigit

/-- What is read leaves an end of the text, and what is not read is due to the text. -/
def Reads (above : Nat) (t : Text) : Except Fault (α × Text) → Prop
  | .ok (_, rest) => rest <:+ t
  | .error e => e.DueTo above t

/-- A fault that is due to an end of a text is due to the text. -/
theorem Fault.DueTo.mono {e : Fault} {above above' : Nat} (h : e.DueTo above s) (hs : s <:+ t)
    (habove : above + 3 * s.countP isOpening ≤ above' + 3 * t.countP isOpening) :
    e.DueTo above' t := by
  cases e with
  | malformed => trivial
  | tooDeep => exact Nat.lt_of_lt_of_le h habove
  | hugeInteger digits => exact ⟨h.1, h.2.trans (countP_le_of_suffix hs)⟩

namespace Reads

variable {above above' : Nat} {x : Except Fault (α × Text)}

/-- Reading an end of a text goes well or wrong as the text allows. -/
theorem mono (h : Reads above s x) (hs : s <:+ t)
    (habove : above + 3 * s.countP isOpening ≤ above' + 3 * t.countP isOpening) :
    Reads above' t x := by
  cases x with
  | error e => exact Fault.DueTo.mono h hs habove
  | ok p => exact List.IsSuffix.trans h hs

/-- Reading less of a text leaves no more, and meets no other faults. -/
theorem of_suffix (h : Reads above s x) (hs : s <:+ t) : Reads above t x :=
  h.mono hs (Nat.add_le_add_left (Nat.mul_le_mul_left 3 (countP_le_of_suffix hs)) above)

/-- Readers in a row fail for reasons that lie in the text. -/
theorem bind {f : α × Text → Except Fault (β × Text)} (h : Reads above t x)
    (hf : ∀ a rest, Reads above rest (f (a, rest))) : Reads above t (x >>= f) := by
  cases x with
  | error e => exact h
  | ok p => exact (hf p.1 p.2).of_suffix h

end Reads

/-- An assignment fails for reasons that lie in the text. -/
theorem readAssignment_reads (above : Nat) (t : Text) : Reads above t (readAssignment t) := by
  unfold readAssignment
  split
  · next key c rest h =>
    split
    · exact ((skipBlanks_suffix rest).trans (List.suffix_cons _ _)).trans (readKey_leaves t _ _ h)
    · trivial
  · trivial

/-- A decimal number that is refused is an integer with too many digits. -/
theorem readDecimal_error {e : Fault} (above : Nat) (h : readDecimal t = some (.error e, rest)) :
    e.DueTo above t := by
  unfold readDecimal at h
  dsimp only at h
  split at h
  · cases h
  · next whole rest' hwhole =>
    have hlength := (length_readWhole hwhole).trans (countP_le_of_suffix (readSign_suffix t))
    split at h
    · obtain ⟨hinteger, -⟩ := Prod.mk.inj (Option.some.inj h)
      unfold integerOf at hinteger
      split at hinteger
      · next hhuge =>
        obtain rfl := Except.error.inj hinteger
        exact ⟨hhuge, hlength⟩
      · cases hinteger
    · cases (Prod.mk.inj (Option.some.inj h)).1

/-- A value without parts fails for reasons that lie in the text. -/
theorem readScalar_reads (above : Nat) (t : Text) : Reads above t (readScalar t) := by
  unfold readScalar
  split
  · next r hstring =>
    refine (readString_leaves t).map ?_ r.1 r.2 hstring
    exact fun _ _ => rfl
  · split
    · next r hword =>
      refine ((readBool_leaves t).orElse ((readMoment_leaves t).orElse
        ((readBased_leaves t).map ?_))) r.1 r.2 hword
      exact fun _ _ => rfl
    · split
      · next v rest hdecimal =>
        cases v with
        | error e => exact readDecimal_error above hdecimal
        | ok v => exact readDecimal_leaves t _ _ hdecimal
      · split
        · next r hspecial => exact readSpecial_leaves t r.1 r.2 hspecial
        · trivial

/-! ## Values -/

/-- How far a value has been read: what is left is an end of the text, and containers that are open
have been opened by brackets. -/
def Advances (containers : List OpenContainer) (t : Text) : Except Fault Progress → Prop
  | .ok (.done _ rest) => rest <:+ t
  | .ok (.expected containers' rest) =>
    rest <:+ t ∧
      depth containers' + 3 * rest.countP isOpening ≤ depth containers + 3 * t.countP isOpening
  | .error e => e.DueTo (depth containers) t

/-- A step over an end of a text is a step over the text, if the brackets before it pay for the
containers. -/
theorem Advances.mono {containers containers' : List OpenContainer} {p : Except Fault Progress}
    (h : Advances containers s p) (hs : s <:+ t)
    (hdepth : depth containers + 3 * s.countP isOpening ≤
      depth containers' + 3 * t.countP isOpening) :
    Advances containers' t p := by
  match p with
  | .ok (.done _ _) => exact h.trans hs
  | .ok (.expected _ _) => exact ⟨h.1.trans hs, h.2.trans hdepth⟩
  | .error _ => exact Fault.DueTo.mono h hs hdepth

/-- What is delivered to the outer containers once the innermost one is closed. -/
theorem Advances.close {outer : List OpenContainer} {p : Except Fault Progress}
    (h : Advances outer s p) (hs : s <:+ t) (c : OpenContainer) : Advances (c :: outer) t p := by
  refine h.mono hs ?_
  have hcount := countP_le_of_suffix (p := isOpening) hs
  rw [depth]
  omega

/-- The next value of the innermost container is expected. -/
theorem advances_next {c c' : OpenContainer} {outer : List OpenContainer}
    (hweight : c'.weight = c.weight) (hs : s <:+ t) :
    Advances (c :: outer) t (.ok (.expected (c' :: outer) s)) := by
  refine ⟨hs, ?_⟩
  have hcount := countP_le_of_suffix (p := isOpening) hs
  rw [depth, depth, hweight]
  omega

/-- Handing a value to the innermost container opens no other one. -/
theorem deliver_advances (v : Value) (t : Text) (containers : List OpenContainer) :
    Advances containers t (deliver v t containers) := by
  fun_induction deliver v t containers with
  | case1 => exact List.suffix_refl _
  | case2 v t items outer d rest hlines _ ih =>
    -- the array is closed
    exact ih.close ((List.suffix_cons _ _).trans (skipLines_suffix hlines)) _
  | case3 v t items outer d rest hlines _ _ d' rest' hlines' _ ih =>
    -- the array is closed after a comma
    have hrest : rest <:+ t := (List.suffix_cons _ _).trans (skipLines_suffix hlines)
    exact ih.close (((List.suffix_cons _ _).trans (skipLines_suffix hlines')).trans hrest) _
  | case4 v t items outer d rest hlines _ _ d' rest' hlines' _ =>
    have hrest : rest <:+ t := (List.suffix_cons _ _).trans (skipLines_suffix hlines)
    exact advances_next rfl ((skipLines_suffix hlines').trans hrest)
  | case9 v t entries key outer entries' _ c rest hblanks _ ih =>
    -- the inline table is closed
    exact ih.close ((List.suffix_cons _ _).trans (hblanks ▸ skipBlanks_suffix t)) _
  | case10 v t entries key outer entries' _ c rest hblanks _ _ key' rest' hassigned =>
    have hrest : rest <:+ t := (List.suffix_cons _ _).trans (hblanks ▸ skipBlanks_suffix t)
    have hreads :=
      (readAssignment_reads 0 (skipBlanks rest)).of_suffix ((skipBlanks_suffix rest).trans hrest)
    rw [hassigned] at hreads
    exact advances_next rfl hreads
  | case11 v t entries key outer entries' _ c rest hblanks _ _ e hassigned =>
    have hrest : rest <:+ t := (List.suffix_cons _ _).trans (hblanks ▸ skipBlanks_suffix t)
    have hreads :=
      (readAssignment_reads (depth (.table entries key :: outer)) (skipBlanks rest)).of_suffix
      ((skipBlanks_suffix rest).trans hrest)
    rw [hassigned] at hreads
    exact hreads
  | case5 | case6 | case7 | case8 | case12 | case13 => trivial

/-- What is delivered after a part of the text. -/
theorem deliver_advances_of_suffix (v : Value) (hs : s <:+ t) (containers : List OpenContainer) :
    Advances containers t (deliver v s containers) := by
  refine (deliver_advances v s containers).mono hs ?_
  have hcount := countP_le_of_suffix (p := isOpening) hs
  omega

/-- An opening bracket pays for the container that it opens. -/
theorem advances_open {c : CodePoint} (hc : isOpening c = true) {container : OpenContainer}
    (hs : s <:+ t) (containers : List OpenContainer) :
    Advances containers (c :: t) (.ok (.expected (container :: containers) s)) := by
  refine ⟨hs.trans (List.suffix_cons c t), ?_⟩
  have hweight : container.weight ≤ 3 := by cases container <;> simp [OpenContainer.weight]
  have hcount := countP_le_of_suffix (p := isOpening) hs
  rw [depth, List.countP_cons_of_pos hc]
  omega

/-- Beginning a value opens at most one container, and its bracket pays for it. -/
theorem beginValue_advances (containers : List OpenContainer) (t : Text) :
    Advances containers t (beginValue containers t) := by
  -- an array, an inline table or a scalar; a container that is not empty stays open
  unfold beginValue
  split
  · trivial
  · next c rest =>
    split
    · next hc =>
      split
      · next d rest' hlines =>
        have hsuffix := skipLines_suffix hlines
        split
        · exact deliver_advances_of_suffix _ (((List.suffix_cons _ _).trans hsuffix).trans
            (List.suffix_cons _ _)) _
        · exact advances_open (by simp [isOpening, hc]) hsuffix containers
      · trivial
    · split
      · next hc =>
        split
        · next d rest' hblanks =>
          have hsuffix : d :: rest' <:+ rest := hblanks ▸ skipBlanks_suffix rest
          split
          · exact deliver_advances_of_suffix _
              (((List.suffix_cons _ _).trans hsuffix).trans (List.suffix_cons _ _)) _
          · have hreads := (readAssignment_reads (depth containers) (d :: rest')).of_suffix hsuffix
            split
            · next key rest'' hassigned =>
              rw [hassigned] at hreads
              exact advances_open (by simp [isOpening, hc]) hreads containers
            · next e hassigned =>
              have hfault := hreads.of_suffix (List.suffix_cons c rest)
              rw [hassigned] at hfault
              exact hfault
        · trivial
      · have hreads := readScalar_reads (depth containers) (c :: rest)
        split
        · next v rest' hscalar =>
          rw [hscalar] at hreads
          exact deliver_advances_of_suffix v hreads containers
        · next e hscalar =>
          rw [hscalar] at hreads
          exact hreads

/-- A value is read below the containers that are open. -/
theorem advance_reads (budget : Nat) (containers : List OpenContainer) (t : Text) :
    Reads (depth containers) t (advance budget containers t) := by
  induction budget generalizing containers t with
  | zero => trivial
  | succ budget ih =>
    rw [advance]
    -- a depth that is exceeded has been paid for with brackets before this text
    by_cases hdeep : maxDepth < depth containers
    · rw [if_pos hdeep]
      exact Nat.lt_of_lt_of_le hdeep (Nat.le_add_right _ _)
    · rw [if_neg hdeep]
      have hbegin := beginValue_advances containers t
      split
      · next v rest hdone =>
        rw [hdone] at hbegin
        exact hbegin
      · next containers' rest hexpected =>
        -- what the text has lost in brackets, the containers have gained in depth
        rw [hexpected] at hbegin
        exact (ih containers' rest).mono hbegin.1 hbegin.2
      · next e herror =>
        rw [herror] at hbegin
        exact hbegin

theorem readValue_reads (t : Text) : Reads 0 t (readValue t) := advance_reads (t.length + 1) [] t

/-! ## Documents -/

/-- A reader that can only fail for its notation has no other fault. -/
theorem wellFormed_reads {o : Option (α × Text)} (h : Leaves t o) : Reads 0 t (wellFormed o) := by
  cases o with
  | none => trivial
  | some p => exact h p.1 p.2 rfl

namespace Document

/-- Reading the header of a table leaves an end of the text. -/
theorem readHeader_leaves (d : Document) (closing : Text)
    (change : Nat → Text → Entries → Option Entries) (t : Text) :
    Leaves t (d.readHeader closing change t) := by
  refine ((readKey_leaves _).bind fun header rest => leaves_after? fun rest => ?_).mono
    (skipBlanks_suffix t)
  intro d' rest' h
  obtain ⟨d'', -, hresult⟩ := Option.bind_eq_some_iff.1 h
  obtain ⟨-, rfl⟩ := Prod.mk.inj (Option.some.inj hresult)
  exact List.suffix_refl _

/-- A statement of a document fails for reasons that lie in the text. -/
theorem readStatement_reads (d : Document) (t : Text) : Reads 0 t (d.readStatement t) := by
  unfold readStatement
  split
  · exact List.suffix_refl _
  · next c rest =>
    split
    · refine (readAssignment_reads 0 (c :: rest)).bind fun key rest => ?_
      refine (readValue_reads rest).bind fun v rest => ?_
      dsimp only
      cases d.assign key v with
      | none => trivial
      | some d' => exact List.suffix_refl _
    · split
      · split
        · next rest' hafter =>
          refine (wellFormed_reads (readHeader_leaves _ _ _ rest')).of_suffix ?_
          exact (after?_suffix hafter).trans (List.suffix_cons _ _)
        · exact (wellFormed_reads (readHeader_leaves _ _ _ rest)).of_suffix (List.suffix_cons _ _)
      · split
        · exact List.suffix_refl _
        · trivial

/-- Statements are read one after another, each from what the one before has left. -/
theorem readAll_dueTo {budget : Nat} {d : Document} {e : Fault}
    (h : readAll budget d t = .error e) : e.DueTo 0 t := by
  induction budget generalizing d t with
  | zero => cases h
  | succ budget ih =>
    rw [readAll] at h
    have hstatement := (d.readStatement_reads (skipBlanks t)).of_suffix (skipBlanks_suffix t)
    split at h
    · next e' herror =>
      rw [herror] at hstatement
      exact Except.error.inj h ▸ hstatement
    · next d' rest hread =>
      rw [hread] at hstatement
      split at h
      · exact Except.error.inj h ▸ trivial
      · cases h
      · next c rest' hcomment =>
        have hline :=
          (skipComment_suffix hcomment).trans ((skipBlanks_suffix rest).trans hstatement)
        have hrest : rest' <:+ t := (List.suffix_cons c rest').trans hline
        split at h
        · exact (ih h).mono hrest (Nat.add_le_add_left
            (Nat.mul_le_mul_left 3 (countP_le_of_suffix hrest)) 0)
        · exact Except.error.inj h ▸ trivial

end Document

/-- A document is refused for its notation, or it has more opening brackets than a third of the
greatest depth, or more digits than an integer may have. -/
theorem read_dueTo {e : Fault} (h : read t = .error e) : e.DueTo 0 t := by
  unfold read at h
  cases hall : Document.readAll (t.length + 1) {} t with
  | ok d =>
    rw [hall] at h
    cases h
  | error e' =>
    rw [hall] at h
    exact Except.error.inj h ▸ Document.readAll_dueTo hall

end CallAudit.Toml
