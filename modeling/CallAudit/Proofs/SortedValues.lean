import CallAudit.Proofs.RunSorting
import CallAudit.Proofs.SortingLinks
import CallAudit.Value.Order
import Mathlib.Tactic

/-!
# Values are sorted or refused

Texts are compared by code points, and numbers other than NaN by their places between the infinities
(`Binary64.lt_eq_rank`). A list of texts or of such numbers is sorted at once; this gives what
merging runs gives (`Value.sortKeyed_eq_sortStable`), so all values are sorted in one way.

Values that can be compared are of one family (`Value.related_of_precedes`), and sorting links all
values of a list by comparisons. So texts, truth values, integers and nulls are either sorted, with
equal values in their order, or refused, and which of the two it is depends on the families that
occur (`Value.sorted_or_refused`).
-/

namespace CallAudit

/-! ## Numbers -/

namespace Binary64

/-- The value of a finite number. -/
def rational (negative : Bool) (mantissa : Nat) (exponent : Int) : ℚ :=
  signed negative mantissa * 2 ^ exponent

/-- The place of a number between the infinities. A NaN has none of its own. -/
def rank : Binary64 → WithBot (WithTop ℚ)
  | .finite negative m e => (rational negative m e : WithTop ℚ)
  | .infinite true => ⊥
  | .infinite false => (⊤ : WithTop ℚ)
  | .nan => ⊥

/-- An integer has itself as its rank. -/
theorem rank_ofInt (i : Int) : rank (ofInt i) = ((i : ℚ) : WithTop ℚ) := by
  have hsigned : signed (decide (i < 0)) i.natAbs = i := by
    unfold signed
    by_cases hi : i < 0
    · rw [decide_eq_true hi, if_pos rfl]
      omega
    · rw [decide_eq_false hi, if_neg Bool.false_ne_true]
      omega
  simp [rank, ofInt, rational, hsigned]

/-- Mantissas are compared after both numbers have been brought to the smaller exponent. -/
theorem ltScaled_eq (a e b f : Int) : ltScaled a e b f = decide ((a * 2 ^ e : ℚ) < b * 2 ^ f) := by
  have htwo (n : Nat) : (twoTo n : ℚ) = 2 ^ (n : ℤ) := by
    rw [zpow_natCast]
    exact Nat.cast_pow 2 n
  have hpow (c h : Int) (hh : min e f ≤ h) :
      (c * 2 ^ h : ℚ) = ((c * twoTo (h - min e f).toNat : ℤ) : ℚ) * 2 ^ (min e f) := by
    have hexp : ((h - min e f).toNat : ℤ) = h - min e f := Int.toNat_of_nonneg (by omega)
    rw [Int.cast_mul, Int.cast_natCast, htwo, hexp, mul_assoc, ← zpow_add₀ two_ne_zero,
      sub_add_cancel]
  have hpos : (0 : ℚ) < 2 ^ (min e f) := by positivity
  rw [hpow a e (min_le_left e f), hpow b f (min_le_right e f)]
  simp only [ltScaled, mul_lt_mul_iff_of_pos_right hpos, Int.cast_lt]

/-- Numbers are compared by their ranks. -/
theorem lt_eq_rank {x y : Binary64} (hx : x ≠ .nan) (hy : y ≠ .nan) :
    lt x y = decide (rank x < rank y) := by
  cases x with
  | nan => exact absurd rfl hx
  | infinite a =>
    cases y with
    | nan => exact absurd rfl hy
    | infinite b => cases a <;> cases b <;> simp [lt, rank]
    | finite t n f => cases a <;> simp [lt, rank]
  | finite s m e =>
    cases y with
    | nan => exact absurd rfl hy
    | infinite b =>
      cases b with
      | true => simp [lt, rank]
      | false => exact (decide_eq_true (WithBot.coe_lt_coe.2 (WithTop.coe_lt_top _))).symm
    | finite t n f =>
      rw [lt, ltScaled_eq, rank, rank, decide_eq_decide, WithBot.coe_lt_coe, WithTop.coe_lt_coe,
        rational, rational]

/-- Equal numbers have the same rank. -/
theorem rank_eq_of_eq {x y : Binary64} (h : eq x y = true) : rank x = rank y := by
  have hx : x ≠ .nan := by
    rintro rfl
    simp [eq] at h
  have hy : y ≠ .nan := by
    rintro rfl
    cases x <;> simp [eq] at h
  have hneither : lt x y = false ∧ lt y x = false := by
    cases x <;> cases y <;> simp_all [eq]
  rw [lt_eq_rank hx hy, lt_eq_rank hy hx, decide_eq_false_iff_not, decide_eq_false_iff_not, not_lt,
    not_lt] at hneither
  exact le_antisymm hneither.2 hneither.1

end Binary64

namespace Value

/-! ## Keys -/

/-- The text of a value that is one. -/
def textKey : Value → Text
  | .text t => t
  | _ => []

/-- The place of a value that is a number. -/
def numberKey (v : Value) : WithBot (WithTop ℚ) := (v.number?.getD .nan).rank

theorem exists_text_of_isText {v : Value} (h : v.isText = true) : ∃ t, v = .text t := by
  cases v with
  | text t => exact ⟨t, rfl⟩
  | _ => simp [isText] at h

theorem exists_number_of_isOrderedNumber {v : Value} (h : v.isOrderedNumber = true) :
    ∃ x, v.number? = some x ∧ x ≠ .nan := by
  rw [isOrderedNumber] at h
  split at h
  · simp at h
  · next x hnan hx => exact ⟨x, hx, hnan⟩
  · simp at h

/-- A number is compared as one. -/
theorem precedes_of_number? {v w : Value} {x : Binary64} (h : v.number? = some x) :
    precedes v w = precedesNumber v w := by
  cases v with
  | bool b => rfl
  | int i => rfl
  | float x => rfl
  | _ => simp [number?] at h

section

variable {α : Type} {keyed : List (Value × α)}

/-- Texts are compared by their keys. -/
theorem decides_texts (h : ∀ a ∈ keyed, a.1.isText = true) :
    Sorting.Decides (fun a b => precedes a.1 b.1) (fun a : Value × α => a.1.textKey) keyed := by
  intro a ha b hb
  obtain ⟨s, hs⟩ := exists_text_of_isText (h a ha)
  obtain ⟨t, ht⟩ := exists_text_of_isText (h b hb)
  simp only [hs, ht, precedes, textKey]

/-- Numbers are compared by their keys. -/
theorem decides_numbers (h : ∀ a ∈ keyed, a.1.isOrderedNumber = true) :
    Sorting.Decides (fun a b => precedes a.1 b.1) (fun a : Value × α => a.1.numberKey) keyed := by
  intro a ha b hb
  obtain ⟨x, hx, hxnan⟩ := exists_number_of_isOrderedNumber (h a ha)
  obtain ⟨y, hy, hynan⟩ := exists_number_of_isOrderedNumber (h b hb)
  simp only [precedes_of_number? hx, precedesNumber, numberKey, hx, hy, Option.getD_some,
    Binary64.lt_eq_rank hxnan hynan]

/-- What is compared by keys is sorted by keys. -/
theorem sortKeyed_of_decides {κ : Type} [LinearOrder κ] {key : Value × α → κ} (falling : Bool)
    (htotal : areTotallyOrdered (keyed.map (·.1)) = true)
    (hkey : Sorting.Decides (fun a b => precedes a.1 b.1) key keyed) :
    sortKeyed falling keyed = .ok (Sorting.stableSort key falling keyed) := by
  have hle : ∀ a ∈ keyed, ∀ b ∈ keyed, mayPrecede a.1 b.1 = Sorting.keyLE key a b := by
    intro a ha b hb
    have hprecedes : precedes b.1 a.1 = .ok (decide (key b < key a)) := hkey b hb a ha
    rw [mayPrecede, hprecedes, Sorting.keyLE]
    simp only [← decide_not, not_lt]
  rw [sortKeyed, if_pos htotal, Sorting.stableSort]
  split
  · rw [Sorting.mergeSort_congr fun a ha b hb =>
      hle a (List.mem_reverse.1 ha) b (List.mem_reverse.1 hb)]
  · rw [Sorting.mergeSort_congr hle]

/-- Sorting a list in a total order at once gives what merging runs gives. -/
theorem sortKeyed_eq_sortStable (falling : Bool) (keyed : List (Value × α)) :
    sortKeyed falling keyed = Sorting.sortStable (fun a b => precedes a.1 b.1) falling keyed := by
  by_cases htotal : areTotallyOrdered (keyed.map (·.1)) = true
  · have hcases : (∀ a ∈ keyed, a.1.isText = true) ∨ ∀ a ∈ keyed, a.1.isOrderedNumber = true := by
      simpa [areTotallyOrdered] using htotal
    rcases hcases with htexts | hnumbers
    · have hkey := decides_texts htexts
      rw [sortKeyed_of_decides falling htotal hkey, Sorting.sortStable_eq falling hkey]
    · have hkey := decides_numbers hnumbers
      rw [sortKeyed_of_decides falling htotal hkey, Sorting.sortStable_eq falling hkey]
  · rw [sortKeyed, if_neg htotal]

end

/-! ## Families -/

/-- The kinds of values that have an order. -/
inductive Family
  | texts
  | numbers
  | lists
  | tuples

/-- The family of a value; a value without one is in no order. -/
def family? : Value → Option Family
  | .text _ => some .texts
  | .bool _ => some .numbers
  | .int _ => some .numbers
  | .float _ => some .numbers
  | .list _ => some .lists
  | .tuple _ => some .tuples
  | _ => none

/-- Two values of one family. -/
def Related (v w : Value) : Prop := ∃ f, v.family? = some f ∧ w.family? = some f

/-- Numbers form a family. -/
theorem family?_of_number? {v : Value} {x : Binary64} (h : v.number? = some x) :
    v.family? = some .numbers := by
  cases v with
  | bool b => rfl
  | int i => rfl
  | float x => rfl
  | _ => simp [number?] at h

/-- Values that can be compared are related. -/
theorem related_of_precedes {v w : Value} {r : Bool} (h : precedes v w = .ok r) : Related v w := by
  cases hx : v.number? with
  | some x =>
    rw [precedes_of_number? hx, precedesNumber, hx] at h
    cases hy : w.number? with
    | some y => exact ⟨.numbers, family?_of_number? hx, family?_of_number? hy⟩
    | none => simp [hy] at h
  | none =>
    -- texts, lists and tuples are compared with their like
    cases v <;> cases w <;> simp [precedes, number?] at h hx <;> exact ⟨_, rfl, rfl⟩

/-- Values that have been compared are of one family. -/
theorem linking_related {α : Type} :
    Sorting.Linking (fun a b : Value × α => precedes a.1 b.1) fun a b => Related a.1 b.1 where
  symm := by
    rintro a b ⟨f, ha, hb⟩
    exact ⟨f, hb, ha⟩
  trans := by
    rintro a b c ⟨f, ha, hb⟩ ⟨f', hb', hc⟩
    exact ⟨f, ha, by rw [hc, ← hb', hb]⟩
  of_lt := related_of_precedes

/-! ## Sorting for a source -/

section

variable {source : Text} {falling : Bool} {values : List Value}

/-- A value is its own key if it is compared as a whole. -/
theorem ofAll_whole (values : List Value) :
    SortKey.ofAll .whole values = .ok (values.map fun v => (v, v)) := by
  induction values with
  | nil => rfl
  | cons v values ih => simp only [SortKey.ofAll, SortKey.of, ih, List.map_cons]

/-- Sorting for a source gives the sorted values. -/
theorem sortFor_of_ok {sorted : List (Value × Value)}
    (h : Sorting.sortStable (fun a b => precedes a.1 b.1) falling (values.map fun v => (v, v)) =
      .ok sorted) :
    sortFor source .whole falling (.list values) = .ok (sorted.map (·.2)) := by
  simp only [sortFor, sortElements, elements?, sort, ofAll_whole, sortKeyed_eq_sortStable, h]

/-- Sorting for a source fails with the message about the two values that cannot be compared. -/
theorem sortFor_of_error {u : Unordered}
    (h : Sorting.sortStable (fun a b => precedes a.1 b.1) falling (values.map fun v => (v, v)) =
      .error u) :
    sortFor source .whole falling (.list values) =
      .error (.broken (.notOrderable source u.message)) := by
  simp only [sortFor, sortElements, elements?, sort, ofAll_whole, sortKeyed_eq_sortStable, h]

/-- Values are sorted by their keys if keys decide the comparisons. -/
theorem sortFor_of_decides {κ : Type} [LinearOrder κ] {key : Value → κ}
    (h : Sorting.Decides (fun a b => precedes a.1 b.1) (fun a : Value × Value => key a.1)
      (values.map fun v => (v, v))) :
    sortFor source .whole falling (.list values) = .ok (Sorting.stableSort key falling values) := by
  rw [sortFor_of_ok (Sorting.sortStable_eq falling h), Sorting.stableSort_map, List.map_map]
  congr 1
  exact List.map_id _

end

/-! ## Simple values -/

/-- The integer that a truth value or an integer is. -/
def integer? : Value → Option Int
  | .bool b => some (if b then 1 else 0)
  | .int i => some i
  | _ => none

/-- Whether a value is a text, a truth value, an integer or null. -/
def isSimple : Value → Bool
  | .null => true
  | v => v.isText || v.integer?.isSome

/-- At most one value, texts alone, or integers alone, truth values being integers. -/
def Orderable (values : List Value) : Prop :=
  values.length ≤ 1 ∨ (∀ v ∈ values, v.isText = true) ∨ ∀ v ∈ values, v.integer?.isSome = true

instance (values : List Value) : Decidable (Orderable values) :=
  inferInstanceAs (Decidable (_ ∨ _ ∨ _))

/-- The order of texts by code points, and of integers, truth values being integers. -/
inductive AtMost : Value → Value → Prop
  | texts {s t : Text} (h : Text.le s t = true) : AtMost (.text s) (.text t)
  | integers {v w : Value} {i j : Int} (hv : v.integer? = some i) (hw : w.integer? = some j)
    (h : i ≤ j) : AtMost v w

theorem number?_of_integer? {v : Value} {i : Int} (h : v.integer? = some i) :
    v.number? = some (.ofInt i) := by
  cases v with
  | bool b => rw [number?, ← Option.some.inj h]
  | int j => rw [number?, ← Option.some.inj h]
  | _ => simp [integer?] at h

theorem numberKey_of_integer? {v : Value} {i : Int} (h : v.integer? = some i) :
    v.numberKey = ((i : ℚ) : WithTop ℚ) := by
  rw [numberKey, number?_of_integer? h, Option.getD_some, Binary64.rank_ofInt]

theorem isOrderedNumber_of_integer? {v : Value} (h : v.integer?.isSome = true) :
    v.isOrderedNumber = true := by
  obtain ⟨i, hi⟩ := Option.isSome_iff_exists.1 h
  rw [isOrderedNumber, number?_of_integer? hi]
  rfl

/-- Texts are in the order of their keys. -/
theorem atMost_of_textKey {v w : Value} (hv : v.isText = true) (hw : w.isText = true)
    (h : v.textKey ≤ w.textKey) : AtMost v w := by
  obtain ⟨s, rfl⟩ := exists_text_of_isText hv
  obtain ⟨t, rfl⟩ := exists_text_of_isText hw
  exact .texts (Text.le_iff.2 (not_lt.2 h))

/-- Integers are in the order of their keys. -/
theorem atMost_of_numberKey {v w : Value} (hv : v.integer?.isSome = true)
    (hw : w.integer?.isSome = true) (h : v.numberKey ≤ w.numberKey) : AtMost v w := by
  obtain ⟨i, hi⟩ := Option.isSome_iff_exists.1 hv
  obtain ⟨j, hj⟩ := Option.isSome_iff_exists.1 hw
  rw [numberKey_of_integer? hi, numberKey_of_integer? hj, WithBot.coe_le_coe, WithTop.coe_le_coe,
    Int.cast_le] at h
  exact .integers hi hj h

/-- The same texts have the same key. -/
theorem textKey_eq_of_same {v w : Value} (hw : w.isText = true) (h : same v w = true) :
    v.textKey = w.textKey := by
  obtain ⟨t, rfl⟩ := exists_text_of_isText hw
  cases v with
  | text s => simpa [same, textKey] using h
  | _ => simp [same, sameNumber, number?] at h

/-- The same integers have the same key. -/
theorem numberKey_eq_of_same {v w : Value} (hw : w.integer?.isSome = true) (h : same v w = true) :
    v.numberKey = w.numberKey := by
  obtain ⟨i, hi⟩ := Option.isSome_iff_exists.1 hw
  have hnumber {x : Binary64} (hx : sameNumber x w = true) : x.rank = w.numberKey := by
    rw [sameNumber, number?_of_integer? hi] at hx
    rw [numberKey, number?_of_integer? hi]
    exact Binary64.rank_eq_of_eq hx
  cases v with
  | bool b => exact hnumber h
  | int j => exact hnumber h
  | float x => exact hnumber h
  | _ => cases w <;> simp [integer?, same] at h hi

/-- Values that are sorted by keys are in order if the keys are. -/
theorem exists_sorted_of_decides {source : Text} {falling : Bool} {values : List Value} {κ : Type}
    [LinearOrder κ] {key : Value → κ}
    (h : Sorting.Decides (fun a b => precedes a.1 b.1) (fun a : Value × Value => key a.1)
      (values.map fun v => (v, v)))
    (hle : ∀ v ∈ values, ∀ w ∈ values, key v ≤ key w → AtMost v w)
    (hsame : ∀ v, ∀ w ∈ values, same v w = true → key v = key w) :
    ∃ sorted, sortFor source .whole falling (.list values) = .ok sorted ∧ sorted.Perm values ∧
      (sorted.Pairwise fun v w => if falling then AtMost w v else AtMost v w) ∧
      ∀ v, sorted.filter (same v) = values.filter (same v) := by
  have hperm := Sorting.perm_stableSort key falling values
  refine ⟨_, sortFor_of_decides h, hperm, ?_, fun v => Sorting.filter_stableSort falling ?_⟩
  · refine (Sorting.pairwise_stableSort key falling values).imp_of_mem fun hv hw hkeys => ?_
    cases falling with
    | true => exact hle _ (hperm.mem_iff.1 hw) _ (hperm.mem_iff.1 hv) hkeys
    | false => exact hle _ (hperm.mem_iff.1 hv) _ (hperm.mem_iff.1 hw) hkeys
  · -- what equals one value has one key
    intro w hw w' hw' hvw hvw'
    rw [← hsame v w hw hvw, hsame v w' hw' hvw']

/-- A simple value is a text or an integer. -/
theorem family?_of_isSimple {v : Value} (h : v.isSimple = true) {f : Family}
    (hf : v.family? = some f) :
    f = .texts ∧ v.isText = true ∨ f = .numbers ∧ v.integer?.isSome = true := by
  cases v with
  | text t => exact .inl ⟨(Option.some.inj hf).symm, rfl⟩
  | bool b => exact .inr ⟨(Option.some.inj hf).symm, rfl⟩
  | int i => exact .inr ⟨(Option.some.inj hf).symm, rfl⟩
  | null => simp [family?] at hf
  | _ => simp [isSimple, isText, integer?] at h

/-- Simple values of one family are orderable; a value alone is, too. -/
theorem orderable_of_related {values : List Value} (hsimple : ∀ v ∈ values, v.isSimple = true)
    (h : values.Pairwise Related) : Orderable values := by
  match values with
  | [] => exact .inl (Nat.zero_le 1)
  | [v] => exact .inl (Nat.le_refl 1)
  | v :: w :: rest =>
    have hv := (List.pairwise_cons.1 h).1
    obtain ⟨f, hf, -⟩ := hv w List.mem_cons_self
    have hall : ∀ x ∈ v :: w :: rest, x.family? = some f := by
      refine List.forall_mem_cons.2 ⟨hf, fun x hx => ?_⟩
      obtain ⟨f', hf', hx⟩ := hv x hx
      rw [hx, ← hf', hf]
    -- the family of the first value decides
    rcases family?_of_isSimple (hsimple v List.mem_cons_self) hf with ⟨rfl, -⟩ | ⟨rfl, -⟩
    · refine .inr (.inl fun x hx => ?_)
      simpa using family?_of_isSimple (hsimple x hx) (hall x hx)
    · refine .inr (.inr fun x hx => ?_)
      simpa using family?_of_isSimple (hsimple x hx) (hall x hx)

/-- **Simple values are sorted or refused.** Given texts, truth values, integers and nulls, a list
of at most one value, of texts alone or of numbers alone is put in ascending or in descending order,
as is asked for, and equal values keep their order in both directions. Every other list is refused
as a whole, and the source is named. -/
theorem sorted_or_refused (source : Text) (falling : Bool) (values : List Value)
    (hsimple : ∀ v ∈ values, v.isSimple = true) :
    (Orderable values → ∃ sorted, sortFor source .whole falling (.list values) = .ok sorted ∧
      sorted.Perm values ∧ (sorted.Pairwise fun v w => if falling then AtMost w v else AtMost v w) ∧
      ∀ v, sorted.filter (same v) = values.filter (same v)) ∧
    (¬ Orderable values → ∃ error, sortFor source .whole falling (.list values) = .error (.broken
      { reason := "carrier is not orderable"
        context := [("source", .text source), ("error", .text error)] })) := by
  have hkeyed {p : Value → Prop} (h : ∀ v ∈ values, p v) :
      ∀ a ∈ values.map fun v => (v, v), p a.1 := by
    simpa using h
  constructor
  · rintro (hshort | htexts | hintegers)
    · have hlength : (values.map fun v => (v, v)).length ≤ 1 := by rwa [List.length_map]
      refine ⟨values, ?_, .refl values, ?_, fun _ => rfl⟩
      · rw [sortFor_of_ok (Sorting.sortStable_of_length_le_one _ falling hlength), List.map_map]
        congr 1
        exact List.map_id values
      · match values, hshort with
        | [], _ => exact List.Pairwise.nil
        | [v], _ => exact List.pairwise_singleton _ v
    · refine exists_sorted_of_decides (decides_texts (hkeyed htexts)) ?_ ?_
      · exact fun v hv w hw => atMost_of_textKey (htexts v hv) (htexts w hw)
      · exact fun v w hw => textKey_eq_of_same (htexts w hw)
    · have hnumbers := hkeyed fun v hv => isOrderedNumber_of_integer? (hintegers v hv)
      refine exists_sorted_of_decides (decides_numbers hnumbers) ?_ ?_
      · exact fun v hv w hw => atMost_of_numberKey (hintegers v hv) (hintegers w hw)
      · exact fun v w hw => numberKey_eq_of_same (hintegers w hw)
  · intro hnot
    cases hsort : Sorting.sortStable (fun a b => precedes a.1 b.1) falling
      (values.map fun v => (v, v)) with
    | error u => exact ⟨u.message, sortFor_of_error hsort⟩
    | ok sorted =>
      -- the comparisons that were made would link all values
      obtain ⟨-, hlinked⟩ := linking_related.sortStable hsort
      rw [List.pairwise_map] at hlinked
      exact absurd (orderable_of_related hsimple hlinked) hnot

/-- Values that are equal stay in their order also when the order falls, and null is not compared
with numbers. -/
theorem sorted_or_refused_ties :
    (∃ sorted, sortFor ['s'] .whole true (.list [.int 1, .bool false, .bool true]) = .ok sorted ∧
      sorted.filter (same (.int 1)) = [.int 1, .bool true]) ∧
    ∃ error, sortFor ['s'] .whole true (.list [.int 2, .int 1, .null]) = .error (.broken
      { reason := "carrier is not orderable"
        context := [("source", .text ['s']), ("error", .text error)] }) := by
  have horderable : Orderable [.int 1, .bool false, .bool true] := by decide
  have hnot : ¬ Orderable [.int 2, .int 1, .null] := by decide
  obtain ⟨sorted, hsort, -, -, hstable⟩ :=
    (sorted_or_refused ['s'] true [.int 1, .bool false, .bool true]
    (by decide)).1 horderable
  exact ⟨⟨sorted, hsort, hstable (.int 1)⟩, (sorted_or_refused ['s'] true [.int 2, .int 1, .null]
    (by decide)).2 hnot⟩

end Value

end CallAudit
