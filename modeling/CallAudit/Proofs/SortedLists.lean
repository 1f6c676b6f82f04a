import Mathlib.Data.List.Lex
import Mathlib.Tactic
import CallAudit.Text.Basic

/-!
# Sorted lists

Sorting by an order is stable: members that are equal in it keep their order (`filter_mergeSort`).
So the result depends on the order of the list before only in so far as members are equal in the
order but not the same (`mergeSort_eq_of_perm`). Where an order compares keys, it is enough that no
two members share a key (`mergeSort_key_eq_of_perm`).
-/

namespace CallAudit

theorem Text.le_antisymm {a b : Text} (hab : Text.le a b = true) (hba : Text.le b a = true) :
    a = b := by
  rw [Text.le_iff] at hab hba
  exact List.le_antisymm (List.not_lt.1 hab) (List.not_lt.1 hba)

theorem Text.le_of_lt {a b : Text} (h : a < b) : Text.le a b = true := by
  rw [Text.le_iff]
  exact List.lt_asymm h

theorem Text.lt_of_le_of_ne {a b : Text} (h : Text.le a b = true) (hne : a ≠ b) : a < b := by
  by_contra hlt
  exact hne (Text.le_antisymm h (Text.le_iff.2 hlt))

section

variable {α : Type} {le : α → α → Bool}

/-- Sorting does not depend on the order of the members if they differ in what is compared. -/
theorem mergeSort_eq_of_perm
    (htrans : ∀ a b c, le a b = true → le b c = true → le a c = true)
    (htotal : ∀ a b, (le a b || le b a) = true) {l l' : List α}
    (hanti : ∀ a ∈ l, ∀ b ∈ l, le a b = true → le b a = true → a = b) (h : l.Perm l') :
    l.mergeSort le = l'.mergeSort le := by
  -- two ascending lists with the same members differ at most by members that are equal in the order
  have hperm : (l.mergeSort le).Perm (l'.mergeSort le) :=
    (List.mergeSort_perm l le).trans (h.trans (List.mergeSort_perm l' le).symm)
  refine hperm.eq_of_pairwise ?_ (List.pairwise_mergeSort htrans htotal l)
    (List.pairwise_mergeSort htrans htotal l')
  intro a b ha hb hab hba
  have hb' : b ∈ l := h.mem_iff.2 (List.mem_mergeSort.1 hb)
  exact hanti a (List.mem_mergeSort.1 ha) b hb' hab hba

/-- Members that are equal in an order keep their order when a list is sorted by it. -/
theorem filter_mergeSort
    (htrans : ∀ a b c, le a b = true → le b c = true → le a c = true)
    (htotal : ∀ a b, (le a b || le b a) = true) {p : α → Bool} {l : List α}
    (h : ∀ a b, p a = true → p b = true → le a b = true) :
    (l.mergeSort le).filter p = l.filter p := by
  have hequal : (l.filter p).Pairwise fun a b => le a b = true := by
    refine List.pairwise_of_forall_mem_list fun a ha b hb => ?_
    exact h a b (List.mem_filter.1 ha).2 (List.mem_filter.1 hb).2
  -- the sorted list has these members in the same order, and no others of their kind
  have hsub : (l.filter p).Sublist (l.mergeSort le) :=
    List.sublist_mergeSort htrans htotal hequal List.filter_sublist
  have hfilter : (l.filter p).Sublist ((l.mergeSort le).filter p) := by
    have := hsub.filter p
    rwa [List.filter_filter, List.filter_congr fun a _ => Bool.and_self (p a)] at this
  exact (hfilter.eq_of_length ((List.mergeSort_perm l le).filter p).length_eq.symm).symm

/-! ## Keys -/

variable {κ : Type} [LinearOrder κ] {key : α → κ}

/-- An order by keys is transitive. -/
theorem le_trans_of_key (hle : ∀ a b, le a b = true ↔ key a ≤ key b) (a b c : α)
    (hab : le a b = true) (hbc : le b c = true) : le a c = true := by
  rw [hle] at hab hbc ⊢
  exact hab.trans hbc

/-- An order by keys is total. -/
theorem le_total_of_key (hle : ∀ a b, le a b = true ↔ key a ≤ key b) (a b : α) :
    (le a b || le b a) = true := by
  rw [Bool.or_eq_true, hle, hle]
  exact le_total (key a) (key b)

/-- What is sorted by keys ascends by keys. -/
theorem pairwise_mergeSort_key (hle : ∀ a b, le a b = true ↔ key a ≤ key b) (l : List α) :
    (l.mergeSort le).Pairwise fun a b => key a ≤ key b :=
  (List.pairwise_mergeSort (le_trans_of_key hle) (le_total_of_key hle) l).imp fun {a b} =>
    (hle a b).1

/-- What is sorted by keys, where no two members share one, does not depend on the order before. -/
theorem mergeSort_key_eq_of_perm (hle : ∀ a b, le a b = true ↔ key a ≤ key b)
    (hkey : Function.Injective key) {l l' : List α} (h : l.Perm l') :
    l.mergeSort le = l'.mergeSort le := by
  refine mergeSort_eq_of_perm (le_trans_of_key hle) (le_total_of_key hle) ?_ h
  intro a _ b _ hab hba
  exact hkey (le_antisymm ((hle a b).1 hab) ((hle b a).1 hba))

/-- The lexicographic order of lists: the first members decide if they differ. -/
theorem cons_le_cons_iff_of_linearOrder {a b : κ} {l l' : List κ} :
    a :: l ≤ b :: l' ↔ a < b ∨ a = b ∧ l ≤ l' := by
  rw [← not_lt, List.cons_lt_cons_iff, ← not_lt (a := l')]
  rcases lt_trichotomy a b with hlt | rfl | hgt
  · simp [hlt, hlt.not_gt, hlt.ne']
  · simp
  · simp [hgt, hgt.not_gt, hgt.ne']

end

end CallAudit
