import CallAudit.Text.Utf8
import Mathlib.Tactic

/-!
# UTF-8 is undone by decoding

Exactly the texts of scalar values have an encoding (`Utf8.encode_eq_ok`), and bytes are decoded to
a text exactly if they are its encoding (`Utf8.decode_eq_ok`). In one direction the bytes of a code
point are followed through the decoder (`Utf8.decodeFrom_encodePoint`); in the other, what the
decoder has taken of a sequence is kept together with what may complete it (`Utf8.Completes`).
-/

namespace CallAudit

namespace CodePoint

theorem ofNat_val (c : CodePoint) : ofNat c.val = c := Fin.ext (Nat.mod_eq_of_lt c.isLt)

theorem val_ofNat {n : Nat} (h : n < 0x110000) : (ofNat n).val = n := Nat.mod_eq_of_lt h

end CodePoint

theorem Text.isScalar_cons (c : CodePoint) (t : Text) :
    isScalar (c :: t) = (!c.isSurrogate && isScalar t) := rfl

theorem Text.isScalar_append (s t : Text) : isScalar (s ++ t) = (isScalar s && isScalar t) :=
  List.all_append

namespace Utf8

variable {c : CodePoint} {b : UInt8}

theorem toNat_toUInt8 {n : Nat} (h : n < 256) : n.toUInt8.toNat = n := by
  simp [Nat.mod_eq_of_lt h]

/-- The number of bytes that follow, by the value of the first byte. -/
theorem continuations?_eq (b : UInt8) :
    continuations? b =
      if b.toNat < 0x80 then some 0 else if b.toNat < 0xc2 then none
      else if b.toNat < 0xe0 then some 1 else if b.toNat < 0xf0 then some 2
      else if b.toNat < 0xf5 then some 3 else none := by
  simp only [continuations?, UInt8.lt_iff_toNat_lt]
  rfl

/-- The bits that the first byte gives, by its value. -/
theorem leadBits_eq (b : UInt8) :
    leadBits b =
      if b.toNat < 0x80 then b.toNat else if b.toNat < 0xe0 then b.toNat - 0xc0
      else if b.toNat < 0xf0 then b.toNat - 0xe0 else b.toNat - 0xf0 := by
  simp only [leadBits, UInt8.lt_iff_toNat_lt]
  rfl

/-- The bounds of the second byte, by the value of the first byte. -/
theorem secondBounds_eq (b : UInt8) :
    ((secondBounds b).1.toNat, (secondBounds b).2.toNat) =
      if b.toNat = 0xe0 then (0xa0, 0xbf) else if b.toNat = 0xed then (0x80, 0x9f)
      else if b.toNat = 0xf0 then (0x90, 0xbf) else if b.toNat = 0xf4 then (0x80, 0x8f)
      else (0x80, 0xbf) := by
  simp only [secondBounds, ← UInt8.toNat_inj]
  repeat' split
  all_goals simp_all

/-- A continuation byte after the second byte of a sequence. -/
def IsTail (b : UInt8) : Prop := 0x80 ≤ b.toNat ∧ b.toNat ≤ 0xbf

/-- A second byte of a sequence with the given first byte. -/
def IsSecond (lead b : UInt8) : Prop :=
  (secondBounds lead).1.toNat ≤ b.toNat ∧ b.toNat ≤ (secondBounds lead).2.toNat

/-- The bits of continuation bytes, put after those gathered before. -/
def gather (bits : Nat) (tails : List UInt8) : Nat :=
  tails.foldl (fun bits b => bits * 0x40 + (b.toNat - 0x80)) bits

theorem inBounds_iff {low high b : UInt8} :
    (low ≤ b && b ≤ high) = true ↔ low.toNat ≤ b.toNat ∧ b.toNat ≤ high.toNat := by
  simp only [Bool.and_eq_true, decide_eq_true_eq, UInt8.le_iff_toNat_le]

/-- The bytes that a sequence misses complete it. -/
theorem decodeFrom_tails (p : Pending) (b : UInt8) (tails rest : List UInt8) (position : Nat)
    (hb : p.low.toNat ≤ b.toNat ∧ b.toNat ≤ p.high.toNat) (htails : ∀ x ∈ tails, IsTail x)
    (hmissing : p.missing = tails.length + 1) :
    decodeFrom position (some p) (b :: tails ++ rest) =
      (decodeFrom (position + tails.length + 1) none rest).map
        (CodePoint.ofNat (gather p.bits (b :: tails)) :: ·) := by
  induction tails generalizing p b position with
  | nil =>
    have hlast : p.missing ≤ 1 := Nat.le_of_eq hmissing
    rw [List.cons_append, decodeFrom, if_pos (inBounds_iff.2 hb)]
    dsimp only
    rw [if_pos hlast]
    rfl
  | cons b' tails ih =>
    have hmore : ¬ p.missing ≤ 1 := by
      rw [hmissing, List.length_cons]
      omega
    rw [List.cons_append, decodeFrom, if_pos (inBounds_iff.2 hb)]
    dsimp only
    rw [if_neg hmore, ih]
    · have hposition : position + 1 + tails.length + 1 = position + (b' :: tails).length + 1 := by
        rw [List.length_cons]
        omega
      rw [hposition]
      simp only [gather, List.foldl_cons]
    · exact htails b' List.mem_cons_self
    · exact fun x hx => htails x (List.mem_cons_of_mem b' hx)
    · show p.missing - 1 = _
      rw [hmissing, List.length_cons, Nat.add_sub_cancel]

/-- A whole sequence is decoded to one code point. -/
theorem decodeFrom_sequence {lead b : UInt8} {tails rest : List UInt8} {position : Nat}
    (hlead : continuations? lead = some (tails.length + 1)) (hb : IsSecond lead b)
    (htails : ∀ x ∈ tails, IsTail x) :
    decodeFrom position none (lead :: b :: tails ++ rest) =
      (decodeFrom (position + (lead :: b :: tails).length) none rest).map
        (CodePoint.ofNat (gather (leadBits lead) (b :: tails)) :: ·) := by
  rw [List.cons_append, decodeFrom, hlead]
  dsimp only
  rw [decodeFrom_tails _ b tails rest (position + 1) (by exact hb) htails (by rfl)]
  simp only [List.length_cons]
  congr 2
  omega

/-- A tail byte carries six bits. -/
theorem isTail_tail (n : Nat) : IsTail (0x80 + n % 0x40).toUInt8 := by
  rw [IsTail, toNat_toUInt8 (by omega)]
  omega

/-- The bytes of a scalar value are decoded to it. -/
theorem decodeFrom_encodePoint (hc : c.isSurrogate = false) (position : Nat) (rest : List UInt8) :
    decodeFrom position none (encodePoint c ++ rest) =
      (decodeFrom (position + (encodePoint c).length) none rest).map (c :: ·) := by
  have hlt : c.val < 0x110000 := c.isLt
  have hscalar : c.val < 0xD800 ∨ 0xE000 ≤ c.val := by
    simp only [CodePoint.isSurrogate, Bool.and_eq_false_iff, decide_eq_false_iff_not] at hc
    omega
  have htail (n : Nat) : (0x80 + n % 0x40).toUInt8.toNat = 0x80 + n % 0x40 :=
    toNat_toUInt8 (by omega)
  have hpoint {n : Nat} (hn : n = c.val) : CodePoint.ofNat n = c := by rw [hn, CodePoint.ofNat_val]
  -- by the number of bytes; the second one is within the bounds of its first one since `c` is
  -- neither
  -- below the numbers of this length nor a surrogate
  unfold encodePoint
  by_cases h1 : c.val < 0x80
  · have hb : c.val.toUInt8.toNat = c.val := toNat_toUInt8 (by omega)
    simp only [h1, if_true]
    rw [List.cons_append, decodeFrom, continuations?_eq, hb, if_pos h1]
    simp only [CodePoint.ofNat_val]
    rfl
  by_cases h2 : c.val < 0x800
  · have hb : (0xc0 + c.val / 0x40).toUInt8.toNat = 0xc0 + c.val / 0x40 := toNat_toUInt8 (by omega)
    have hbounds := secondBounds_eq (0xc0 + c.val / 0x40).toUInt8
    simp only [h1, h2, if_true, if_false]
    rw [decodeFrom_sequence, hpoint]
    · simp only [gather, List.foldl_cons, List.foldl_nil, leadBits_eq, htail, hb]
      grind
    · rw [continuations?_eq, hb]
      grind
    · rw [IsSecond, htail]
      grind
    · simp
  by_cases h3 : c.val < 0x10000
  · have hb : (0xe0 + c.val / 0x1000).toUInt8.toNat = 0xe0 + c.val / 0x1000 :=
      toNat_toUInt8 (by omega)
    have hbounds := secondBounds_eq (0xe0 + c.val / 0x1000).toUInt8
    simp only [h1, h2, h3, if_true, if_false]
    rw [decodeFrom_sequence, hpoint]
    · simp only [gather, List.foldl_cons, List.foldl_nil, leadBits_eq, htail, hb]
      grind
    · rw [continuations?_eq, hb]
      grind
    · rw [IsSecond, htail]
      grind
    · simpa only [List.forall_mem_cons, List.not_mem_nil, false_imp_iff, implies_true,
        and_true] using
        isTail_tail _
  · have hb : (0xf0 + c.val / 0x40000).toUInt8.toNat = 0xf0 + c.val / 0x40000 :=
      toNat_toUInt8 (by omega)
    have hbounds := secondBounds_eq (0xf0 + c.val / 0x40000).toUInt8
    simp only [h1, h2, h3, if_false]
    rw [decodeFrom_sequence, hpoint]
    · simp only [gather, List.foldl_cons, List.foldl_nil, leadBits_eq, htail, hb]
      grind
    · rw [continuations?_eq, hb]
      grind
    · rw [IsSecond, htail]
      grind
    · simpa only [List.forall_mem_cons, List.not_mem_nil, false_imp_iff, implies_true,
        and_true] using
        ⟨isTail_tail _, isTail_tail _⟩

/-- A text of scalar values is decoded from its bytes. -/
theorem decodeFrom_flatMap {t : Text} (ht : Text.isScalar t = true) (position : Nat) :
    decodeFrom position none (t.flatMap encodePoint) = .ok t := by
  induction t generalizing position with
  | nil => rfl
  | cons c t ih =>
    rw [Text.isScalar_cons, Bool.and_eq_true, Bool.not_eq_true'] at ht
    rw [List.flatMap_cons, decodeFrom_encodePoint ht.1, ih ht.2]
    rfl

/-- A text has no surrogates if and only if it consists of scalar values. -/
theorem surrogateRun?_eq_none {t : Text} {position : Nat} :
    surrogateRun? position t = none ↔ Text.isScalar t = true := by
  induction t generalizing position with
  | nil => exact ⟨fun _ => rfl, fun _ => rfl⟩
  | cons c t ih =>
    rw [surrogateRun?, Text.isScalar_cons]
    cases c.isSurrogate with
    | true => simp
    | false => simpa using ih

/-- Exactly the texts of scalar values have an encoding. -/
theorem encode_eq_ok {t : Text} {bytes : List UInt8} :
    encode t = .ok bytes ↔ Text.isScalar t = true ∧ t.flatMap encodePoint = bytes := by
  rw [← surrogateRun?_eq_none , encode]
  cases surrogateRun? 0 t with
  | none => simp
  | some fault => simp

/-- Decoding undoes encoding. -/
theorem decode_encode {t : Text} {bytes : List UInt8} (h : encode t = .ok bytes) :
    decode bytes = .ok t := by
  obtain ⟨ht, rfl⟩ := encode_eq_ok.1 h
  exact decodeFrom_flatMap ht 0

/-! ## Bytes that surrogates share

A table compares texts by their bytes. The bytes of a surrogate, which are not UTF-8, tell it apart
from every other code point all the same. -/

theorem toUInt8_inj {n m : Nat} : n.toUInt8 = m.toUInt8 ↔ n % 256 = m % 256 := by
  rw [← UInt8.toNat_inj]
  simp

/-- A code point takes at least one byte. -/
theorem encodePoint_ne_nil (c : CodePoint) : encodePoint c ≠ [] := by
  unfold encodePoint
  dsimp only
  split_ifs <;> exact List.cons_ne_nil _ _

/-- Where bytes go on from the bytes of one code point and from those of another, the two are the
same. -/
theorem encodePoint_append_inj {c d : CodePoint} {r s : List UInt8}
    (h : encodePoint c ++ r = encodePoint d ++ s) : c = d ∧ r = s := by
  have hc := c.isLt
  have hd := d.isLt
  suffices c.val = d.val ∧ r = s from ⟨Fin.ext this.1, this.2⟩
  unfold encodePoint at h
  dsimp only at h
  -- the first byte tells how many there are, and all of them tell the number
  split_ifs at h <;>
    simp only [List.cons_append, List.nil_append, List.cons.injEq, toUInt8_inj] at h <;> grind

/-- Texts with the same bytes are the same. -/
theorem flatMap_encodePoint_inj {s t : Text} (h : s.flatMap encodePoint = t.flatMap encodePoint) :
    s = t := by
  induction s generalizing t with
  | nil =>
    cases t with
    | nil => rfl
    | cons d t => exact absurd (List.append_eq_nil_iff.1 h.symm).1 (encodePoint_ne_nil d)
  | cons c s ih =>
    cases t with
    | nil => exact absurd (List.append_eq_nil_iff.1 h).1 (encodePoint_ne_nil c)
    | cons d t =>
      obtain ⟨rfl, hrest⟩ := encodePoint_append_inj h
      rw [ih hrest]

/-! ## What is decoded -/

/-- Bytes that complete what has been taken of a sequence form, together with it, the encoding of a
scalar value. -/
def Completes (taken : List UInt8) (p : Pending) : Prop :=
  ∀ b tails, p.low.toNat ≤ b.toNat ∧ b.toNat ≤ p.high.toNat → (∀ x ∈ tails, IsTail x) →
    p.missing = tails.length + 1 →
    (CodePoint.ofNat (gather p.bits (b :: tails))).isSurrogate = false ∧
      encodePoint (CodePoint.ofNat (gather p.bits (b :: tails))) = taken ++ b :: tails

/-- The second byte of a sequence lies within the bounds that its first byte sets. -/
theorem IsSecond.bounds {lead b : UInt8} (h : IsSecond lead b) :
    (0x80 ≤ b.toNat ∧ b.toNat ≤ 0xbf) ∧ (lead.toNat = 0xe0 → 0xa0 ≤ b.toNat) ∧
      (lead.toNat = 0xed → b.toNat ≤ 0x9f) ∧ (lead.toNat = 0xf0 → 0x90 ≤ b.toNat) ∧
      (lead.toNat = 0xf4 → b.toNat ≤ 0x8f) := by
  have hbounds := secondBounds_eq lead
  rw [IsSecond] at h
  grind

/-- The number that a complete sequence stands for is a scalar value, and its encoding is this
sequence. -/
theorem encodePoint_gather {lead b : UInt8} {tails : List UInt8}
    (hlead : continuations? lead = some (tails.length + 1)) (hb : IsSecond lead b)
    (htails : ∀ x ∈ tails, IsTail x) :
    (CodePoint.ofNat (gather (leadBits lead) (b :: tails))).isSurrogate = false ∧
      encodePoint (CodePoint.ofNat (gather (leadBits lead) (b :: tails))) = lead :: b :: tails := by
  have hbyte {n : Nat} {x : UInt8} (hn : n = x.toNat) : n.toUInt8 = x := hn ▸ UInt8.ofNat_toNat
  obtain ⟨hrange, hbounds⟩ := hb.bounds
  rw [continuations?_eq] at hlead
  simp only [CodePoint.isSurrogate, Bool.and_eq_false_iff, decide_eq_false_iff_not, encodePoint]
  rcases tails with _ | ⟨x, _ | ⟨y, _ | ⟨z, tails⟩⟩⟩
  · -- two bytes; the least first byte excludes overlong forms
    have hfirst : 0xc2 ≤ lead.toNat ∧ lead.toNat < 0xe0 := by grind
    have hn : gather (leadBits lead) [b] = (lead.toNat - 0xc0) * 0x40 + (b.toNat - 0x80) := by
      simp only [gather, List.foldl_cons, List.foldl_nil, leadBits_eq]
      grind
    rw [hn, CodePoint.val_ofNat (by omega), if_neg (by omega), if_pos (by omega),
      hbyte (x := lead) (by omega), hbyte (x := b) (by omega)]
    exact ⟨by omega, rfl⟩
  · -- three bytes; the bounds of the second one exclude overlong forms and surrogates
    have hx : IsTail x := htails x List.mem_cons_self
    rw [IsTail] at hx
    have hfirst : 0xe0 ≤ lead.toNat ∧ lead.toNat < 0xf0 := by grind
    have hn : gather (leadBits lead) [b, x] =
        (lead.toNat - 0xe0) * 0x1000 + (b.toNat - 0x80) * 0x40 + (x.toNat - 0x80) := by
      simp only [gather, List.foldl_cons, List.foldl_nil, leadBits_eq]
      grind
    rw [hn, CodePoint.val_ofNat (by omega), if_neg (by omega), if_neg (by omega), if_pos (by omega),
      hbyte (x := lead) (by omega), hbyte (x := b) (by omega), hbyte (x := x) (by omega)]
    exact ⟨by omega, rfl⟩
  · -- four bytes; the bounds of the second one keep the number within the code space
    have hx : IsTail x := htails x List.mem_cons_self
    have hy : IsTail y := htails y (List.mem_cons_of_mem x List.mem_cons_self)
    rw [IsTail] at hx hy
    have hfirst : 0xf0 ≤ lead.toNat ∧ lead.toNat < 0xf5 := by grind
    have hn : gather (leadBits lead) [b, x, y] = (lead.toNat - 0xf0) * 0x40000 +
        (b.toNat - 0x80) * 0x1000 +
        (x.toNat - 0x80) * 0x40 + (y.toNat - 0x80) := by
      simp only [gather, List.foldl_cons, List.foldl_nil, leadBits_eq]
      grind
    rw [hn, CodePoint.val_ofNat (by omega), if_neg (by omega), if_neg (by omega), if_neg (by omega),
      hbyte (x := lead) (by omega), hbyte (x := b) (by omega), hbyte (x := x) (by omega),
      hbyte (x := y) (by omega)]
    exact ⟨by omega, rfl⟩
  · -- no first byte announces four further bytes
    simp only [List.length_cons] at hlead
    grind

/-- A byte that stands alone is the encoding of its own number. -/
theorem encodePoint_single (h : continuations? b = some 0) :
    (CodePoint.ofNat b.toNat).isSurrogate = false ∧
      encodePoint (CodePoint.ofNat b.toNat) = [b] := by
  have hlt : b.toNat < 0x80 := by
    rw [continuations?_eq] at h
    grind
  have hval : (CodePoint.ofNat b.toNat).val = b.toNat := CodePoint.val_ofNat (by omega)
  refine ⟨?_, ?_⟩
  · simp only [CodePoint.isSurrogate, hval, Bool.and_eq_false_iff, decide_eq_false_iff_not]
    omega
  · rw [encodePoint, hval, if_pos hlt]
    exact congrArg (fun x => [x]) UInt8.ofNat_toNat

/-- One more byte of a sequence leaves one byte less to complete it. -/
theorem Completes.next {taken : List UInt8} {p p' : Pending} (h : Completes taken p)
    (hb : p.low.toNat ≤ b.toNat ∧ b.toNat ≤ p.high.toNat)
    (hbits : p'.bits = p.bits * 0x40 + (b.toNat - 0x80)) (hmissing : p.missing = p'.missing + 1)
    (hlow : p'.low = 0x80) (hhigh : p'.high = 0xbf) : Completes (taken ++ [b]) p' := by
  intro b' tails hb' htails hlength
  have hall : ∀ x ∈ b' :: tails, IsTail x := by
    rw [hlow, hhigh] at hb'
    exact List.forall_mem_cons.2 ⟨hb', htails⟩
  have hwhole := h b (b' :: tails) hb hall (by rw [hmissing, hlength, List.length_cons])
  have hgather : gather p.bits (b :: b' :: tails) = gather p'.bits (b' :: tails) := by
    simp only [gather, List.foldl_cons, hbits]
  rwa [hgather, List.append_cons] at hwhole

/-- What is decoded consists of scalar values, and its encoding is what was decoded. -/
theorem encode_of_decodeFrom (bs : List UInt8) :
    (∀ position t, decodeFrom position none bs = .ok t → Text.isScalar t = true ∧
      t.flatMap encodePoint = bs) ∧
    ∀ position p taken t, decodeFrom position (some p) bs = .ok t → 1 ≤ p.missing →
      Completes taken p →
      Text.isScalar t = true ∧ t.flatMap encodePoint = taken ++ bs := by
  -- between two sequences and inside one, where the bytes taken of it come in front
  induction bs with
  | nil =>
    refine ⟨fun position t h => ?_, fun position p taken t h => ?_⟩
    · cases h
      exact ⟨rfl, rfl⟩
    · cases h
  | cons b bs ih =>
    -- a code point in front of what is decoded from the rest
    have hcons {position : Nat} {c : CodePoint} {t : Text} (taken : List UInt8)
        (hc : c.isSurrogate = false)
        (hbytes : encodePoint c = taken) (h : (decodeFrom position none bs).map (c :: ·) = .ok t) :
        Text.isScalar t = true ∧ t.flatMap encodePoint = taken ++ bs := by
      cases hrest : decodeFrom position none bs with
      | error fault => simp [hrest, Except.map] at h
      | ok t' =>
        rw [hrest] at h
        obtain ⟨hscalar, hencoded⟩ := ih.1 position t' hrest
        rw [← Except.ok.inj h, Text.isScalar_cons, hc, hscalar, List.flatMap_cons, hbytes, hencoded]
        exact ⟨rfl, rfl⟩
    refine ⟨fun position t h => ?_, fun position p taken t h hmissing hcompletes => ?_⟩
    · rw [decodeFrom] at h
      cases hlead : continuations? b with
      | none => simp [hlead] at h
      | some n =>
        cases n with
        | zero =>
          simp only [hlead] at h
          obtain ⟨hscalar, hbytes⟩ := encodePoint_single hlead
          exact hcons [b] hscalar hbytes h
        | succ n =>
          simp only [hlead] at h
          refine ih.2 _ _ [b] t h (Nat.le_add_left 1 n) fun b' tails hb' htails hlength => ?_
          exact encodePoint_gather (hlength ▸ hlead) hb' htails
    · rw [decodeFrom] at h
      by_cases hb : (p.low ≤ b && b ≤ p.high) = true
      · rw [if_pos hb] at h
        dsimp only at h
        by_cases hlast : p.missing ≤ 1
        · rw [if_pos hlast] at h
          obtain ⟨hscalar, hbytes⟩ := hcompletes b [] (inBounds_iff.1 hb) (by simp) (by simp; omega)
          rw [List.append_cons]
          exact hcons _ hscalar hbytes h
        · rw [if_neg hlast] at h
          rw [List.append_cons]
          refine ih.2 _ _ _ t h (by dsimp only; omega)
            (hcompletes.next (inBounds_iff.1 hb) rfl ?_ rfl rfl)
          dsimp only
          omega
      · rw [if_neg hb] at h
        cases h

/-- **UTF-8.** Bytes are decoded to a text exactly if they are its encoding. -/
theorem decode_eq_ok {bs : List UInt8} {t : Text} : decode bs = .ok t ↔ encode t = .ok bs := by
  refine ⟨fun h => ?_, decode_encode⟩
  exact encode_eq_ok.2 ((encode_of_decodeFrom bs).1 0 t h)

end Utf8

end CallAudit
