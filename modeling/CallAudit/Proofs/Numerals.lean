import CallAudit.Text.Decimal
import Mathlib.Tactic

/-!
# Decimal digits

The digits of a number read as the number (`Text.ofDecimalDigits_decimalDigits`) and do not start
with a zero, but for zero itself (`Text.exists_decimalDigits_eq_cons`). Numbers and their digits
bound each other (`Text.length_decimalDigits_le`, `Text.ofDecimalDigits_lt`).
-/

namespace CallAudit

namespace Text

theorem decimalDigits_of_lt {n : Nat} (h : n < 10) : decimalDigits n = [n] := by
  rw [decimalDigits, if_pos h]

theorem decimalDigits_of_le {n : Nat} (h : 10 ≤ n) :
    decimalDigits n = decimalDigits (n / 10) ++ [n % 10] := by
  rw [decimalDigits, if_neg (Nat.not_lt.2 h)]

/-- What is written by decimal digits reads as the number. -/
theorem ofDecimalDigits_decimalDigits (n : Nat) : ofDecimalDigits (decimalDigits n) = n := by
  induction n using Nat.strong_induction_on with
  | _ n ih =>
    by_cases h : n < 10
    · rw [decimalDigits_of_lt h]
      simp [ofDecimalDigits]
    · have hle := Nat.not_lt.1 h
      have hprev := ih (n / 10) (by omega)
      rw [decimalDigits_of_le hle, ofDecimalDigits, List.foldl_append]
      rw [ofDecimalDigits] at hprev
      rw [hprev]
      simp only [List.foldl_cons, List.foldl_nil]
      omega

/-- Digits are below ten. -/
theorem lt_ten_of_mem_decimalDigits {n d : Nat} (h : d ∈ decimalDigits n) : d < 10 := by
  induction n using Nat.strong_induction_on with
  | _ n ih =>
    by_cases hn : n < 10
    · rw [decimalDigits_of_lt hn, List.mem_singleton] at h
      omega
    · have hle := Nat.not_lt.1 hn
      rw [decimalDigits_of_le hle, List.mem_append, List.mem_singleton] at h
      rcases h with h | h
      · exact ih (n / 10) (by omega) h
      · omega

/-- The first digit is zero only if it is the only one. -/
theorem exists_decimalDigits_eq_cons (n : Nat) :
    ∃ d ds, decimalDigits n = d :: ds ∧ (d = 0 → ds = []) := by
  induction n using Nat.strong_induction_on with
  | _ n ih =>
    by_cases hn : n < 10
    · exact ⟨n, [], decimalDigits_of_lt hn, fun _ => rfl⟩
    · have hle := Nat.not_lt.1 hn
      obtain ⟨d, ds, hds, hzero⟩ := ih (n / 10) (by omega)
      refine ⟨d, ds ++ [n % 10], by rw [decimalDigits_of_le hle, hds]; rfl, fun hd => ?_⟩
      -- the digits before the last one are those of a positive number
      exfalso
      have hvalue := ofDecimalDigits_decimalDigits (n / 10)
      rw [hds, hd, hzero hd] at hvalue
      simp [ofDecimalDigits] at hvalue
      omega

/-- A number below a power of ten has no more digits than the power has zeros. -/
theorem length_decimalDigits_le {n k : Nat} (hk : 0 < k) (h : n < 10 ^ k) :
    (decimalDigits n).length ≤ k := by
  induction k generalizing n with
  | zero => omega
  | succ k ih =>
    by_cases hn : n < 10
    · rw [decimalDigits_of_lt hn]
      simp
    · have hle := Nat.not_lt.1 hn
      have hpos : 0 < k := by
        rcases Nat.eq_zero_or_pos k with rfl | hpos
        · simp at h
          omega
        · exact hpos
      have hprev := ih (n := n / 10) hpos (by rw [Nat.pow_succ] at h; omega)
      rw [decimalDigits_of_le hle, List.length_append, List.length_singleton]
      omega

/-- A number is below the power of ten of its digits. -/
theorem ofDecimalDigits_lt {ds : List Nat} (h : ∀ d ∈ ds, d < 10) :
    ofDecimalDigits ds < 10 ^ ds.length := by
  induction ds using List.reverseRecOn with
  | nil => simp [ofDecimalDigits]
  | append_singleton ds d ih =>
    have hd := h d (List.mem_append_right _ (List.mem_singleton_self d))
    have hprev := ih fun x hx => h x (List.mem_append_left _ hx)
    rw [ofDecimalDigits, List.foldl_append, List.length_append, List.length_singleton, Nat.pow_succ]
    rw [ofDecimalDigits] at hprev
    simp only [List.foldl_cons, List.foldl_nil]
    omega

/-- An integer is too long to be written out if it has more digits than the limit says. -/
theorem isLong_iff (i : Int) : isLong i = true ↔ 10 ^ maxWrittenDigits ≤ i.natAbs := by
  rw [isLong, decide_eq_true_eq, ← not_iff_not, Nat.not_lt, Nat.not_le]
  constructor
  · intro hlength
    calc i.natAbs = ofDecimalDigits (decimalDigits i.natAbs) :=
          (ofDecimalDigits_decimalDigits _).symm
      _ < 10 ^ (decimalDigits i.natAbs).length :=
          ofDecimalDigits_lt fun _ hd => lt_ten_of_mem_decimalDigits hd
      _ ≤ 10 ^ maxWrittenDigits := Nat.pow_le_pow_right (by decide) hlength
  · exact length_decimalDigits_le (by decide)

/-- The least integer that is too long. -/
theorem isLong_ten_pow : isLong (10 ^ maxWrittenDigits) = true := by
  rw [isLong_iff, Int.natAbs_pow]
  exact Nat.pow_le_pow_left (by decide) _

end Text

end CallAudit
