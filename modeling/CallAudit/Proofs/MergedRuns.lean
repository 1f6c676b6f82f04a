import CallAudit.Sorting.Basic
import Mathlib.Data.List.Sort
import Mathlib.Tactic

/-!
# Runs are merged in order

Two runs in rising order are merged into the list that taking their elements one by one would give,
equal elements of the left run first (`merge_eq`). It does not matter for this from which end they
are merged, when stretches are taken in place of single elements, or how the ends of the stretches
are searched.

* A search finds the place where a run goes over from elements that pass a test to elements that do
  not, wherever it starts (`bisect_eq`, `gallop_eq`).
* While two runs are being merged, what has been taken and what is still to be merged make up the
  same list (`Merging.outcome`), whichever step is made (`Merging.Ready.takeOne`,
  `Merging.Ready.round`).
* From the back, elements are taken in the reverse order (`reverse_merge`).
-/

namespace CallAudit.Sorting

variable {α ε : Type}

/-! ## Searching -/

/-- Halving finds the place up to which the test holds. -/
theorem bisect_eq {before : Nat → Except ε Bool} {low high place : Nat} (hlow : low ≤ place)
    (hhigh : place ≤ high) (h : ∀ i, low ≤ i → i < high → before i = .ok (decide (i < place))) :
    bisect before low high = .ok place := by
  induction hn : high - low using Nat.strong_induction_on generalizing low high with
  | _ n ih =>
    rw [bisect]
    by_cases hlt : low < high
    · have hmiddle :
          before (low + (high - low) / 2) = .ok (decide (low + (high - low) / 2 < place)) :=
        h _ (by omega) (by omega)
      rw [if_pos hlt]
      dsimp only
      rw [hmiddle]
      by_cases hplace : low + (high - low) / 2 < place
      · rw [decide_eq_true hplace]
        exact ih _ (by omega) (by omega) hhigh (fun i hi => h i (by omega)) rfl
      · rw [decide_eq_false hplace]
        exact ih _ (by omega) hlow (by omega) (fun i hi hi' => h i hi (by omega)) rfl
    · rw [if_neg hlt]
      congr 1
      omega

/-- Strides end between a distance at which the test holds, or the one before the first, and a
distance at which it fails, or the bound. -/
theorem stride_eq (farther : Nat → Except ε Bool) (test : Nat → Bool)
    (h : ∀ i, farther i = .ok (test i)) (last step bound : Nat) :
    ∃ near far, stride farther last step bound = .ok (near, far) ∧
      (near = last ∨ test near = true) ∧
      (far = bound ∨ test far = false) := by
  fun_induction stride farther last step bound with
  | case1 last step hstep e herror => simp [h] at herror
  | case2 last step hstep htrue ih =>
    have htest : test step = true := by simpa [h] using htrue
    obtain ⟨near, far, hstride, hnear, hfar⟩ := ih
    refine ⟨near, far, hstride, ?_, hfar⟩
    rcases hnear with rfl | hnear
    · exact .inr htest
    · exact .inr hnear
  | case3 last step hstep hfalse =>
    exact ⟨last, step, rfl, .inl rfl, .inr (by simpa [h] using hfalse)⟩
  | case4 last step hstep => exact ⟨last, bound, rfl, .inl rfl, .inl rfl⟩

section

variable {before : α → Except ε Bool} {front back : List α}
  (hfront : ∀ y ∈ front, before y = .ok true)
  (hback : ∀ y ∈ back, before y = .ok false)

include hfront hback

/-- A test holds at the places of the first part only. -/
theorem testAt_append (i : Nat) :
    testAt before (front ++ back) i = .ok (decide (i < front.length)) := by
  unfold testAt
  by_cases hi : i < front.length
  · rw [List.getElem?_append_left hi, List.getElem?_eq_getElem hi, decide_eq_true hi]
    exact hfront _ (List.getElem_mem hi)
  · rw [List.getElem?_append_right (Nat.le_of_not_lt hi), decide_eq_false hi]
    cases hy : back[i - front.length]? with
    | none => rfl
    | some y => exact hback y (List.mem_of_getElem? hy)

/-- Searching by strides finds the end of the part whose elements pass the test, wherever it
starts. -/
theorem gallop_eq (start : Nat) : gallop before (front ++ back) start = .ok front.length := by
  have htest := testAt_append hfront hback
  have hlength : front.length ≤ (front ++ back).length := by simp
  rw [gallop, htest start]
  by_cases hstart : start < front.length
  · -- the end is to the right of the start
    obtain ⟨near, far, hstride, hnear, hfar⟩ :=
      stride_eq (fun k => testAt before (front ++ back) (start + k))
      (fun k => decide (start + k < front.length)) (fun k => htest (start + k)) 0 1
        ((front ++ back).length - start)
    simp only [decide_eq_true_eq, decide_eq_false_iff_not] at hnear hfar
    simp only [decide_eq_true hstart, hstride]
    exact bisect_eq (by omega) (by omega) fun i _ _ => htest i
  · -- the end is at the start or to the left of it
    obtain ⟨near, far, hstride, hnear, hfar⟩ := stride_eq
      (fun k => (testAt before (front ++ back) (start - k)).map not)
        (fun k => !decide (start - k < front.length))
      (fun k => by rw [htest]; rfl) 0 1 (start + 1)
    simp only [Bool.not_eq_true', Bool.not_eq_false', decide_eq_true_eq,
      decide_eq_false_iff_not] at hnear hfar
    simp only [decide_eq_false hstart, hstride]
    exact bisect_eq (by omega) (by omega) fun i _ _ => htest i

end

/-- The elements of a run that pass a test come first if each element passes that comes before one
that does. -/
theorem exists_split {p : α → Bool} {run : List α}
    (h : run.Pairwise fun a b => p b = true → p a = true) :
    ∃ front back, run = front ++ back ∧ (∀ y ∈ front, p y = true) ∧ ∀ y ∈ back, p y = false := by
  induction run with
  | nil => exact ⟨[], [], rfl, by simp, by simp⟩
  | cons a run ih =>
    obtain ⟨ha, hrun⟩ := List.pairwise_cons.1 h
    cases hpa : p a with
    | true =>
      obtain ⟨front, back, rfl, hfront, hback⟩ := ih hrun
      exact ⟨a :: front, back, rfl, by simpa [hpa] using hfront, hback⟩
    | false =>
      refine ⟨[], a :: run, rfl, by simp, fun y hy => ?_⟩
      rcases List.mem_cons.1 hy with rfl | hy
      · exact hpa
      · by_contra hpy
        have := ha y hy (by simpa using hpy)
        rw [hpa] at this
        exact absurd this (by decide)

/-! ## Merging one by one -/

section

variable {le : α → α → Bool} {left right front back : List α}

/-- Elements of the left run that come before all others are merged first. -/
theorem merge_front_left (h : ∀ x ∈ front, ∀ y ∈ right.head?, le x y = true) :
    (front ++ back).merge right le = front ++ back.merge right le := by
  induction front with
  | nil => rfl
  | cons x front ih =>
    obtain ⟨hx, hfront⟩ := List.forall_mem_cons.1 h
    cases right with
    | nil => simp
    | cons y right =>
      rw [List.cons_append, List.cons_merge_cons, if_pos (hx y rfl), ih hfront, List.cons_append]

/-- So are elements of the right run. -/
theorem merge_front_right (h : ∀ y ∈ front, ∀ x ∈ left.head?, le x y = false) :
    left.merge (front ++ back) le = front ++ left.merge back le := by
  induction front with
  | nil => rfl
  | cons y front ih =>
    obtain ⟨hy, hfront⟩ := List.forall_mem_cons.1 h
    cases left with
    | nil => simp
    | cons x left =>
      rw [List.cons_append, List.cons_merge_cons, if_neg (by simp [hy x rfl]), ih hfront,
        List.cons_append]

/-- Elements of the left run that all go first are followed by the right run. -/
theorem merge_eq_left_append (h : ∀ x ∈ left, ∀ y ∈ right.head?, le x y = true) :
    left.merge right le = left ++ right := by
  have hfront : (left ++ []).merge right le = left ++ List.merge [] right le := merge_front_left h
  simpa using hfront

/-- Elements of the right run that all go first are followed by the left run. -/
theorem merge_eq_right_append (h : ∀ y ∈ right, ∀ x ∈ left.head?, le x y = false) :
    left.merge right le = right ++ left := by
  have hfront : left.merge (right ++ []) le = right ++ left.merge [] le := merge_front_right h
  simpa using hfront

/-- Elements of the left run that come after all others are merged last. -/
theorem merge_back_left (h : ∀ x ∈ back, ∀ y ∈ right, le x y = false) :
    (front ++ back).merge right le = front.merge right le ++ back := by
  induction front, right using List.merge.induct le with
  | case1 right =>
    rw [List.nil_append, List.nil_merge]
    exact merge_eq_right_append fun y hy x hx => h x (List.mem_of_mem_head? hx) y hy
  | case2 front => simp
  | case3 x front y right hle ih =>
    rw [List.cons_append, List.cons_merge_cons, List.cons_merge_cons, if_pos hle, if_pos hle, ih h,
      List.cons_append]
  | case4 x front y right hle ih =>
    have hright : ∀ x ∈ back, ∀ z ∈ right, le x z = false :=
      fun x hx z hz => h x hx z (List.mem_cons_of_mem y hz)
    rw [List.cons_append, List.cons_merge_cons, List.cons_merge_cons, if_neg hle, if_neg hle,
      List.cons_append, ← ih hright, List.cons_append]

/-- So are elements of the right run. -/
theorem merge_back_right (h : ∀ x ∈ left, ∀ y ∈ back, le x y = true) :
    left.merge (front ++ back) le = left.merge front le ++ back := by
  induction left, front using List.merge.induct le with
  | case1 front => simp
  | case2 left =>
    rw [List.nil_append, List.merge_right]
    exact merge_eq_left_append fun x hx y hy => h x hx y (List.mem_of_mem_head? hy)
  | case3 x left y front hle ih =>
    have hleft : ∀ z ∈ left, ∀ y ∈ back, le z y = true :=
      fun z hz => h z (List.mem_cons_of_mem x hz)
    rw [List.cons_append, List.cons_merge_cons, List.cons_merge_cons, if_pos hle, if_pos hle,
      List.cons_append, ← ih hleft, List.cons_append]
  | case4 x left y front hle ih =>
    rw [List.cons_append, List.cons_merge_cons, List.cons_merge_cons, if_neg hle, if_neg hle, ih h,
      List.cons_append]

end

/-! ## The order of keys -/

variable {κ : Type} [LinearOrder κ] {key : α → κ}

/-- The comparison tells, for any two elements of a list, whether the key of the first one is
smaller. -/
def Decides (lt : α → α → Except ε Bool) (key : α → κ) (whole : List α) : Prop :=
  ∀ a ∈ whole, ∀ b ∈ whole, lt a b = .ok (decide (key a < key b))

/-- Whether the key of the first element is at most that of the second. -/
def keyLE (key : α → κ) (a b : α) : Bool := decide (key a ≤ key b)

/-- A comparison succeeds and follows the keys. -/
theorem Decides.lt_eq {lt : α → α → Except ε Bool} {whole : List α} (h : Decides lt key whole)
    {x y : α} (hx : x ∈ whole) (hy : y ∈ whole) : lt y x = .ok !keyLE key x y := by
  have hnot : decide (key y < key x) = !keyLE key x y := by
    rw [keyLE, ← decide_not, decide_eq_decide, not_le]
  rw [h y hy x hx, hnot]

theorem Decides.map_not_eq {lt : α → α → Except ε Bool} {whole : List α} (h : Decides lt key whole)
    {x y : α} (hx : x ∈ whole) (hy : y ∈ whole) : (lt y x).map not = .ok (keyLE key x y) := by
  rw [h.lt_eq hx hy, Except.map, Bool.not_not]

/-- Whether an element of the left run goes before one of the right run, seen from the end that they
are merged from. -/
def leftFirst (key : α → κ) : Side → α → α → Bool
  | .front, x, y => keyLE key x y
  | .back, x, y => !keyLE key x y

/-- The order of the elements of a run, seen from an end. -/
def Directed (key : α → κ) : Side → α → α → Prop
  | .front, a, b => key a ≤ key b
  | .back, a, b => key b ≤ key a

/-- What comes before an element of the left run that is taken first is taken first. -/
theorem leftFirst_of_directed_left (side : Side) {x x' y : α} (hx : Directed key side x x')
    (h : leftFirst key side x' y = true) : leftFirst key side x y = true := by
  cases side with
  | front =>
    simp only [leftFirst, keyLE, decide_eq_true_eq] at h ⊢
    exact le_trans hx h
  | back =>
    simp only [leftFirst, keyLE, Bool.not_eq_true', decide_eq_false_iff_not, not_le] at h ⊢
    exact lt_of_lt_of_le h hx

/-- The same for the right run. -/
theorem leftFirst_of_directed_right (side : Side) {x y y' : α} (hy : Directed key side y y')
    (h : leftFirst key side x y' = false) : leftFirst key side x y = false := by
  cases side with
  | front =>
    simp only [leftFirst, keyLE, decide_eq_false_iff_not, not_le] at h ⊢
    exact lt_of_le_of_lt hy h
  | back =>
    simp only [leftFirst, keyLE, Bool.not_eq_false', decide_eq_true_eq] at h ⊢
    exact le_trans h hy

theorem pairwise_reverse_directed {run : List α} (h : run.Pairwise (Directed key .front)) :
    run.reverse.Pairwise (Directed key .back) :=
  List.pairwise_reverse.2 h

/-- Taking the elements of two runs from the back gives the list in reverse. -/
theorem reverse_merge {left right : List α} (hleft : left.Pairwise (Directed key .front))
    (hright : right.Pairwise (Directed key .front)) :
    (left.reverse.merge right.reverse (leftFirst key .back)).reverse =
      left.merge right (keyLE key) := by
  induction hn : left.length + right.length using Nat.strong_induction_on generalizing left
    right with
  | _ n ih =>
    rcases List.eq_nil_or_concat' left with rfl | ⟨left, x, rfl⟩
    · simp
    rcases List.eq_nil_or_concat' right with rfl | ⟨right, y, rfl⟩
    · simp
    obtain ⟨hleft', -, hx⟩ := List.pairwise_append.1 hleft
    obtain ⟨hright', -, hy⟩ := List.pairwise_append.1 hright
    simp only [List.length_append, List.length_singleton] at hn
    by_cases hxy : key x ≤ key y
    · -- the last element of the right run comes last
      have hstep : (left ++ [x]).merge (right ++ [y]) (keyLE key) =
          (left ++ [x]).merge right (keyLE key) ++ [y] := by
        refine merge_back_right fun z hz w hw => ?_
        obtain rfl := List.mem_singleton.1 hw
        rcases List.mem_append.1 hz with hz | hz
        · exact decide_eq_true (le_trans (hx z hz x (List.mem_singleton_self x)) hxy)
        · obtain rfl := List.mem_singleton.1 hz
          exact decide_eq_true hxy
      rw [hstep, ← ih _ (by simp; omega) hleft hright' rfl]
      simp [leftFirst, keyLE, hxy]
    · -- the last element of the left run comes last
      have hstep : (left ++ [x]).merge (right ++ [y]) (keyLE key) =
          left.merge (right ++ [y]) (keyLE key) ++ [x] := by
        refine merge_back_left fun z hz w hw => ?_
        obtain rfl := List.mem_singleton.1 hz
        rcases List.mem_append.1 hw with hw | hw
        · exact decide_eq_false fun hzw => hxy
            (le_trans hzw (hy w hw y (List.mem_singleton_self y)))
        · obtain rfl := List.mem_singleton.1 hw
          exact decide_eq_false hxy
      rw [hstep, ← ih _ (by simp; omega) hleft' hright rfl]
      simp [leftFirst, keyLE, hxy]

/-! ## Steps of merging -/

variable {lt : α → α → Except ε Bool} {whole : List α} {side : Side}

namespace Merging

variable {m : Merging α}

/-- The list that merging leads to, seen from the end that runs are merged from. -/
def outcome (key : α → κ) (side : Side) (m : Merging α) : List α :=
  m.taken.reverse ++ m.left.merge m.right (leftFirst key side)

/-- Two runs in order, of which the shorter one, seen from the end that they are merged from, holds
the last of all elements. -/
structure Ready (key : α → κ) (whole : List α) (side : Side) (m : Merging α) : Prop where
  left : m.left.Pairwise (Directed key side)
  right : m.right.Pairwise (Directed key side)
  left_mem : ∀ x ∈ m.left, x ∈ whole
  right_mem : ∀ y ∈ m.right, y ∈ whole
  left_last : side = .front → ∀ x ∈ m.left.getLast?, ∀ y ∈ m.right, key y < key x
  right_last : side = .back → ∀ y ∈ m.right.getLast?, ∀ x ∈ m.left, key y < key x

theorem mem_getLast?_of_drop {run : List α} {n : Nat} {x : α} (h : x ∈ (run.drop n).getLast?) :
    x ∈ run.getLast? := by
  rw [List.getLast?_drop] at h
  split at h
  · simp at h
  · exact h

/-- A merge stays ready when elements are taken from the left. -/
theorem Ready.takeLeft (h : m.Ready key whole side) (n : Nat) :
    (m.takeLeft n).Ready key whole side where
  left := h.left.sublist (List.drop_sublist n _)
  right := h.right
  left_mem := fun x hx => h.left_mem x (List.mem_of_mem_drop hx)
  right_mem := h.right_mem
  left_last := fun hside x hx => h.left_last hside x (mem_getLast?_of_drop hx)
  right_last := fun hside y hy x hx => h.right_last hside y hy x (List.mem_of_mem_drop hx)

/-- It stays ready when elements are taken from the right. -/
theorem Ready.takeRight (h : m.Ready key whole side) (n : Nat) :
    (m.takeRight n).Ready key whole side where
  left := h.left
  right := h.right.sublist (List.drop_sublist n _)
  left_mem := h.left_mem
  right_mem := fun y hy => h.right_mem y (List.mem_of_mem_drop hy)
  left_last := fun hside x hx y hy => h.left_last hside x hx y (List.mem_of_mem_drop hy)
  right_last := fun hside y hy => h.right_last hside y (mem_getLast?_of_drop hy)

/-- Taking elements of the left run that come first does not change the outcome. -/
theorem outcome_takeLeft {front back : List α} (hleft : m.left = front ++ back)
    (h : ∀ x ∈ front, ∀ y ∈ m.right.head?, leftFirst key side x y = true) :
    (m.takeLeft front.length).outcome key side = m.outcome key side := by
  simp only [outcome, Merging.takeLeft, hleft, List.take_left, List.drop_left, List.reverse_append,
    List.reverse_reverse, List.append_assoc, merge_front_left h]

/-- Neither does taking such elements of the right run. -/
theorem outcome_takeRight {front back : List α} (hright : m.right = front ++ back)
    (h : ∀ y ∈ front, ∀ x ∈ m.left.head?, leftFirst key side x y = false) :
    (m.takeRight front.length).outcome key side = m.outcome key side := by
  simp only [outcome, Merging.takeRight, hright, List.take_left, List.drop_left,
    List.reverse_append, List.reverse_reverse, List.append_assoc, merge_front_right h]

theorem outcome_takeLeft_one {x : α} {rest : List α} (hleft : m.left = x :: rest)
    (h : ∀ y ∈ m.right.head?, leftFirst key side x y = true) :
    (m.takeLeft 1).outcome key side = m.outcome key side :=
  outcome_takeLeft (show m.left = [x] ++ rest from hleft) (by simpa using h)

theorem outcome_takeRight_one {y : α} {rest : List α} (hright : m.right = y :: rest)
    (h : ∀ x ∈ m.left.head?, leftFirst key side x y = false) :
    (m.takeRight 1).outcome key side = m.outcome key side :=
  outcome_takeRight (show m.right = [y] ++ rest from hright) (by simpa using h)

/-- A step of merging goes on to a list with the same outcome. -/
structure Leads (key : α → κ) (whole : List α) (side : Side) (m m' : Merging α) : Prop where
  ready : m'.Ready key whole side
  outcome_eq : m'.outcome key side = m.outcome key side

/-- What a comparison of elements of both runs says about which one goes first. -/
theorem Ready.lt_eq (hlt : Decides lt key whole) (h : m.Ready key whole side) {x y : α}
    (hx : x ∈ m.left) (hy : y ∈ m.right) :
    lt y x = .ok (leftFirst key side x y != decide (side = .front)) := by
  rw [hlt.lt_eq (h.left_mem x hx) (h.right_mem y hy)]
  cases side <;> simp [leftFirst]

/-- The run whose next element goes first gives it away. -/
theorem Ready.takeOne (hlt : Decides lt key whole) (h : m.Ready key whole side)
    (hm : m.isDone side = false) :
    ∃ m' fromRight, m.takeOne lt side = .ok (m', fromRight) ∧ m.Leads key whole side m' := by
  obtain ⟨x, left, hleft⟩ := List.exists_cons_of_ne_nil (left_ne_nil hm)
  obtain ⟨y, right, hright⟩ := List.exists_cons_of_ne_nil (right_ne_nil hm)
  have hcompared := h.lt_eq hlt (x := x) (y := y) (by simp [hleft]) (by simp [hright])
  have hone : m.takeOne lt side =
      if leftFirst key side x y = false then .ok (m.takeRight 1, true)
        else .ok (m.takeLeft 1, false) := by
    rw [Merging.takeOne.eq_def, hleft, hright]
    simp only [hcompared]
    cases leftFirst key side x y <;> simp
  by_cases hfirst : leftFirst key side x y = false
  · refine ⟨_, _, hone.trans (if_pos hfirst), h.takeRight 1, ?_⟩
    exact outcome_takeRight_one hright (by simpa [hleft] using hfirst)
  · refine ⟨_, _, hone.trans (if_neg hfirst), h.takeLeft 1, ?_⟩
    exact outcome_takeLeft_one hleft (by simpa [hright] using hfirst)

/-- Taking one element leads to a merge with the same outcome. -/
theorem Ready.leads_of_takeOne (hlt : Decides lt key whole) (h : m.Ready key whole side)
    (hm : m.isDone side = false) {m' : Merging α} {fromRight : Bool}
    (hone : m.takeOne lt side = .ok (m', fromRight)) : m.Leads key whole side m' := by
  obtain ⟨m₁, fromRight₁, hone₁, hleads⟩ := h.takeOne hlt hm
  obtain ⟨rfl, -⟩ : m₁ = m' ∧ fromRight₁ = fromRight := by simpa [hone₁] using hone
  exact hleads

end Merging

/-- From either end a stretch is found that passes the test, or fails it from the back. -/
theorem stretch_eq {before : α → Except ε Bool} {front back : List α}
    (hfront : ∀ y ∈ front, before y = .ok (decide (side = .front)))
    (hback : ∀ y ∈ back, before y = .ok !decide (side = .front)) :
    stretch side before (front ++ back) = .ok front.length := by
  cases side with
  | front => exact gallop_eq hfront hback 0
  | back =>
    have hgallop : gallop before (front ++ back).reverse ((front ++ back).length - 1) =
        .ok back.reverse.length := by
      rw [List.reverse_append]
      exact gallop_eq (fun y hy => hback y (List.mem_reverse.1 hy))
        (fun y hy => hfront y (List.mem_reverse.1 hy)) _
    show (gallop before (front ++ back).reverse ((front ++ back).length - 1)).map _ = _
    rw [hgallop]
    simp [Except.map]

namespace Merging

variable {m : Merging α}

/-- So does the second half of a round, which succeeds. -/
theorem Ready.roundRight (hlt : Decides lt key whole) (h : m.Ready key whole side)
    (fromLeft : Nat) :
    ∃ r, m.roundRight lt side fromLeft = .ok r ∧ m.Leads key whole side r.merging := by
  cases hleft : m.left with
  | nil => exact ⟨⟨m, fromLeft, 0⟩, by rw [Merging.roundRight, hleft], h, rfl⟩
  | cons x left =>
    have hx : x ∈ m.left := by rw [hleft]; exact List.mem_cons_self
    -- the elements of the right run that go before the next one of the left run
    obtain ⟨front, back, hright, hfront, hback⟩ :=
      exists_split (p := fun y => !leftFirst key side x y)
      (h.right.imp fun hy => by simpa using leftFirst_of_directed_right side hy)
    have hstretch : stretch side (fun y => lt y x) m.right = .ok front.length := by
      rw [hright]
      refine stretch_eq (fun y hy => ?_) fun y hy => ?_
      · have hfirst : leftFirst key side x y = false := by simpa using hfront y hy
        simp [h.lt_eq hlt hx (y := y) (by simp [hright, hy]), hfirst]
      · have hfirst : leftFirst key side x y = true := by simpa using hback y hy
        simp [h.lt_eq hlt hx (y := y) (by simp [hright, hy]), hfirst]
    have hround :
        m.roundRight lt side fromLeft =
          .ok ⟨if (m.takeRight front.length).isDone side then m.takeRight front.length
            else (m.takeRight front.length).takeLeft 1, fromLeft, front.length⟩ := by
      rw [Merging.roundRight, hleft]
      simp only [hstretch]
    have htaken : (m.takeRight front.length).outcome key side = m.outcome key side :=
      outcome_takeRight hright (by simpa [hleft] using hfront)
    refine ⟨_, hround, ?_⟩
    dsimp only
    split
    · exact ⟨h.takeRight _, htaken⟩
    · refine ⟨(h.takeRight _).takeLeft 1, .trans (outcome_takeLeft_one hleft fun y hy => ?_) htaken⟩
      have hy : y ∈ back.head? := by simpa [Merging.takeRight, hright] using hy
      simpa using hback y (List.mem_of_mem_head? hy)

/-- A round takes stretches, and with each the element that ends it. -/
theorem Ready.round (hlt : Decides lt key whole) (h : m.Ready key whole side) :
    ∃ r, m.round lt side = .ok r ∧ m.Leads key whole side r.merging := by
  cases hright : m.right with
  | nil => exact ⟨⟨m, 0, 0⟩, by rw [Merging.round, hright], h, rfl⟩
  | cons y right =>
    have hy : y ∈ m.right := by rw [hright]; exact List.mem_cons_self
    -- the elements of the left run that go before the next one of the right run
    obtain ⟨front, back, hleft, hfront, hback⟩ :=
      exists_split (p := fun x => leftFirst key side x y)
      (h.left.imp fun hx => leftFirst_of_directed_left side hx)
    have hstretch : stretch side (fun x => (lt y x).map not) m.left = .ok front.length := by
      rw [hleft]
      refine stretch_eq (fun x hx => ?_) fun x hx => ?_
      · simp [h.lt_eq hlt (x := x) (by simp [hleft, hx]) hy, hfront x hx, Except.map]
      · simp [h.lt_eq hlt (x := x) (by simp [hleft, hx]) hy, hback x hx, Except.map]
    have htaken : (m.takeLeft front.length).outcome key side = m.outcome key side :=
      outcome_takeLeft hleft (by simpa [hright] using hfront)
    have htaken' :
        ((m.takeLeft front.length).takeRight 1).outcome key side = m.outcome key side := by
      refine .trans (outcome_takeRight_one hright fun x hx => ?_) htaken
      have hx : x ∈ back.head? := by simpa [Merging.takeLeft, hleft] using hx
      exact hback x (List.mem_of_mem_head? hx)
    have hready := h.takeLeft front.length
    obtain ⟨r, hround, hleads⟩ := (hready.takeRight 1).roundRight hlt front.length
    rw [Merging.round, hright]
    simp only [hstretch]
    split
    · exact ⟨_, rfl, hready, htaken⟩
    · split
      · exact ⟨_, rfl, hready.takeRight 1, htaken'⟩
      · exact ⟨r, hround, hleads.ready, hleads.outcome_eq.trans htaken'⟩

/-- So does a round. -/
theorem Ready.leads_of_round (hlt : Decides lt key whole) (h : m.Ready key whole side) {r : Round α}
    (hround : m.round lt side = .ok r) : m.Leads key whole side r.merging := by
  obtain ⟨r₁, hround₁, hleads⟩ := h.round hlt
  obtain rfl : r₁ = r := by simpa [hround₁] using hround
  exact hleads

end Merging

/-! ## Whole merges -/

/-- A list that is given from an end, from its front. -/
def oriented : Side → List α → List α
  | .front, l => l
  | .back, l => l.reverse

namespace Merging

variable {m : Merging α}

/-- When merging is done, what is left is in order. -/
theorem Ready.finish (h : m.Ready key whole side) (hm : m.isDone side = true) :
    m.finish side = oriented side (m.outcome key side) := by
  cases side with
  | front =>
    have hmerge : m.left.merge m.right (leftFirst key .front) = m.right ++ m.left := by
      cases hright : m.right with
      | nil => simp
      | cons y right =>
        -- the left run has at most its last element left, which comes after all of the right run
        refine merge_eq_right_append fun z hz x hx => ?_
        have hlast : m.left.getLast? = some x := by
          rcases hleft : m.left with _ | ⟨x₀, _ | ⟨x₁, left⟩⟩
          · simp [hleft] at hx
          · simpa [hleft] using hx
          · simp [isDone, isSingle, hleft, hright] at hm
        simpa [leftFirst, keyLE] using h.left_last rfl x hlast z (by rw [hright]; exact hz)
    simp only [Merging.finish, oriented, outcome, hmerge]
  | back =>
    have hmerge : m.left.merge m.right (leftFirst key .back) = m.left ++ m.right := by
      cases hleft : m.left with
      | nil => simp
      | cons x left =>
        refine merge_eq_left_append fun z hz y hy => ?_
        have hlast : m.right.getLast? = some y := by
          rcases hright : m.right with _ | ⟨y₀, _ | ⟨y₁, right⟩⟩
          · simp [hright] at hy
          · simpa [hright] using hy
          · simp [isDone, isSingle, hleft, hright] at hm
        simpa [leftFirst, keyLE] using h.right_last rfl y hlast z (by rw [hleft]; exact hz)
    simp [Merging.finish, oriented, outcome, hmerge]

/-- Whatever the pace, merging gives its outcome. -/
theorem Ready.complete (hlt : Decides lt key whole) (h : m.Ready key whole side) (pace : Pace)
    (patience : Nat) :
    ∃ patience', m.complete lt side pace patience =
      .ok (oriented side (m.outcome key side), patience') := by
  -- induction along the steps of merging, none of which fails or changes the outcome
  fun_induction Merging.complete lt side pace patience m with
  | case1 pace patience m hdone => exact ⟨patience, by rw [h.finish hdone]⟩
  | case2 patience m hdone leftWins rightWins e herror =>
    obtain ⟨m', fromRight, hone, -⟩ := h.takeOne hlt (by simpa using hdone)
    simp [hone] at herror
  | case3 patience m hdone leftWins rightWins m' hone ih =>
    have hleads := h.leads_of_takeOne hlt (by simpa using hdone) hone
    obtain ⟨patience', hcomplete⟩ := ih hleads.ready
    rw [dite_eq_ite, hleads.outcome_eq] at hcomplete
    exact ⟨patience', hcomplete⟩
  | case4 patience m hdone leftWins rightWins m' hone ih =>
    have hleads := h.leads_of_takeOne hlt (by simpa using hdone) hone
    obtain ⟨patience', hcomplete⟩ := ih hleads.ready
    rw [dite_eq_ite, hleads.outcome_eq] at hcomplete
    exact ⟨patience', hcomplete⟩
  | case5 patience m hdone e herror =>
    obtain ⟨r, hround, -⟩ := h.round hlt
    simp [hround] at herror
  | case6 patience m hdone r hround hdone' =>
    have hleads := h.leads_of_round hlt hround
    exact ⟨patience, by rw [hleads.ready.finish hdone', hleads.outcome_eq]⟩
  | case7 patience m hdone r hround hdone' _ ih =>
    have hleads := h.leads_of_round hlt hround
    obtain ⟨patience', hcomplete⟩ := ih hleads.ready
    exact ⟨patience', by rw [hcomplete, hleads.outcome_eq]⟩
  | case8 patience m hdone r hround hdone' _ ih =>
    have hleads := h.leads_of_round hlt hround
    obtain ⟨patience', hcomplete⟩ := ih hleads.ready
    exact ⟨patience', by rw [hcomplete, hleads.outcome_eq]⟩

end Merging

/-- A run in rising order whose elements can be compared. -/
structure Rising (key : α → κ) (whole run : List α) : Prop where
  sorted : run.Pairwise (Directed key .front)
  mem : ∀ x ∈ run, x ∈ whole

/-- Runs that overlap are merged in the order of their keys. -/
theorem mergeOverlap_eq (hlt : Decides lt key whole) {left right : List α}
    (hleft : Rising key whole left) (hright : Rising key whole right) {x y : α}
    (hx : left.getLast? = some x) (hy : right.head? = some y) (hfirst : ∀ z ∈ left, key y < key z)
    (hlast : ∀ z ∈ right, key z < key x) (patience : Nat) :
    ∃ patience', mergeOverlap lt patience left right =
      .ok (left.merge right (keyLE key), patience') := by
  rw [mergeOverlap]
  split
  · -- from the front, where the right run has the first element
    have hready : (Merging.mk left right []).Ready key whole .front :=
      { left := hleft.sorted, right := hright.sorted, left_mem := hleft.mem, right_mem := hright.mem
        left_last := fun _ x' hx' => by
          obtain rfl : x = x' := by simpa [hx] using hx'
          exact hlast
        right_last := nofun }
    obtain ⟨right, rfl⟩ : ∃ rest, right = y :: rest := List.head?_eq_some_iff.1 hy
    have htaken : ((Merging.mk left (y :: right) []).takeRight 1).outcome key .front =
        left.merge (y :: right) (keyLE key) := by
      refine Merging.outcome_takeRight_one rfl fun x hx => ?_
      simpa [leftFirst, keyLE] using hfirst x (List.mem_of_mem_head? hx)
    obtain ⟨patience', hcomplete⟩ := (hready.takeRight 1).complete hlt (.single 0 0) patience
    exact ⟨patience', by rw [hcomplete, htaken]; rfl⟩
  · -- from the back, where the left run has the first element
    have hready : (Merging.mk left.reverse right.reverse []).Ready key whole .back :=
      { left := pairwise_reverse_directed hleft.sorted,
        right := pairwise_reverse_directed hright.sorted
        left_mem := fun z hz => hleft.mem z (List.mem_reverse.1 hz)
        right_mem := fun z hz => hright.mem z (List.mem_reverse.1 hz)
        left_last := nofun
        right_last := fun _ y' hy' z hz => by
          obtain rfl : y = y' := by simpa [hy] using hy'
          exact hfirst z (List.mem_reverse.1 hz) }
    have htaken : ((Merging.mk left.reverse right.reverse []).takeLeft 1).outcome key .back =
        left.reverse.merge right.reverse (leftFirst key .back) := by
      obtain ⟨rest, hrest⟩ : ∃ rest, left.reverse = x :: rest :=
        List.head?_eq_some_iff.1 (by rw [List.head?_reverse, hx])
      refine Merging.outcome_takeLeft_one hrest fun y hy => ?_
      simpa [leftFirst, keyLE] using hlast y (List.mem_reverse.1 (List.mem_of_mem_head? hy))
    obtain ⟨patience', hcomplete⟩ := (hready.takeLeft 1).complete hlt (.single 0 0) patience
    refine ⟨patience', ?_⟩
    rw [hcomplete, htaken, ← reverse_merge hleft.sorted hright.sorted]
    rfl

theorem Rising.of_append {front back : List α} (h : Rising key whole (front ++ back)) :
    Rising key whole front ∧ Rising key whole back := by
  obtain ⟨hfront, hback, -⟩ := List.pairwise_append.1 h.sorted
  obtain ⟨hfrontMem, hbackMem⟩ := List.forall_mem_append.1 h.mem
  exact ⟨⟨hfront, hfrontMem⟩, hback, hbackMem⟩

theorem Rising.le_getLast {run : List α} (h : Rising key whole run) {x : α}
    (hx : run.getLast? = some x) : ∀ z ∈ run, key z ≤ key x := by
  obtain ⟨init, rfl⟩ := List.getLast?_eq_some_iff.1 hx
  intro z hz
  rcases List.mem_append.1 hz with hz | hz
  · exact (List.pairwise_append.1 h.sorted).2.2 z hz x (List.mem_singleton_self x)
  · rw [List.mem_singleton.1 hz]

/-- The place of an element in a run: behind all elements that it does not precede. -/
theorem Rising.exists_place (hlt : Decides lt key whole) {run : List α} (h : Rising key whole run)
    {y : α} (hy : y ∈ whole) :
    ∃ front back, run = front ++ back ∧ (∀ x ∈ front, keyLE key x y = true ∧
      (lt y x).map not = .ok true) ∧
      ∀ x ∈ back, keyLE key x y = false ∧ (lt y x).map not = .ok false := by
  obtain ⟨front, back, rfl, hfront, hback⟩ := exists_split (p := fun x => keyLE key x y)
    (h.sorted.imp fun hx => leftFirst_of_directed_left .front hx)
  refine ⟨front, back, rfl, fun x hx => ⟨hfront x hx, ?_⟩, fun x hx => ⟨hback x hx, ?_⟩⟩
  · rw [hlt.map_not_eq (h.mem x (List.mem_append_left _ hx)) hy, hfront x hx]
  · rw [hlt.map_not_eq (h.mem x (List.mem_append_right _ hx)) hy, hback x hx]

/-- The elements of the left run that stay in front are those that the first one of the right run
does not precede. -/
theorem exists_settled (hlt : Decides lt key whole) {left : List α} (hleft : Rising key whole left)
    {y : α} (hy : y ∈ whole) (right : List α) :
    ∃ front back, left = front ++ back ∧ (∀ x ∈ back, key y < key x) ∧
      gallop (fun x => (lt y x).map not) left 0 = .ok front.length ∧
      left.merge (y :: right) (keyLE key) = front ++ back.merge (y :: right) (keyLE key) := by
  obtain ⟨front, back, rfl, hfront, hback⟩ := hleft.exists_place hlt hy
  refine ⟨front, back, rfl, fun x hx => ?_, ?_, ?_⟩
  · simpa [keyLE] using (hback x hx).1
  · exact gallop_eq (fun x hx => (hfront x hx).2) (fun x hx => (hback x hx).2) 0
  · refine merge_front_left fun x hx z hz => ?_
    obtain rfl : y = z := by simpa using hz
    exact (hfront x hx).1

/-- The elements of the right run that do not stay behind are those that precede the last one of the
left run. -/
theorem exists_moving (hlt : Decides lt key whole) {left right : List α}
    (hright : Rising key whole right) {x : α} (hx : x ∈ whole) (hlast : ∀ z ∈ left, key z ≤ key x)
    (start : Nat) :
    ∃ moving behind, right = moving ++ behind ∧ (∀ z ∈ moving, key z < key x) ∧
      gallop (fun z => lt z x) right start = .ok moving.length ∧
      left.merge right (keyLE key) = left.merge moving (keyLE key) ++ behind := by
  obtain ⟨moving, behind, rfl, hmoving, hbehind⟩ := exists_split (p := fun z => !keyLE key x z)
    (hright.sorted.imp fun hz => by simpa [leftFirst] using leftFirst_of_directed_right .front hz)
  refine ⟨moving, behind, rfl, fun z hz => ?_,
    gallop_eq (fun z hz => ?_) (fun z hz => ?_) start, ?_⟩
  · simpa [keyLE] using hmoving z hz
  · rw [hlt.lt_eq hx (hright.mem z (List.mem_append_left _ hz)), hmoving z hz]
  · rw [hlt.lt_eq hx (hright.mem z (List.mem_append_right _ hz)), hbehind z hz]
  · refine merge_back_right fun z hz w hw => ?_
    have hxw : key x ≤ key w := by simpa [keyLE] using hbehind w hw
    exact decide_eq_true (le_trans (hlast z hz) hxw)

/-- Two runs in rising order are merged as if their elements were taken one by one. -/
theorem merge_eq (hlt : Decides lt key whole) {left right : List α} (hleft : Rising key whole left)
    (hright : Rising key whole right) (patience : Nat) :
    ∃ patience', merge lt patience left right = .ok (left.merge right (keyLE key), patience') := by
  cases right with
  | nil => exact ⟨patience, by simp [merge]⟩
  | cons y right =>
    have hy : y ∈ whole := hright.mem y List.mem_cons_self
    obtain ⟨front, back, rfl, hfirst, hsettled, hmerge⟩ := exists_settled hlt hleft hy right
    have hback := hleft.of_append.2
    rw [merge]
    simp only [hsettled, List.drop_left, List.take_left]
    cases hx : back.getLast? with
    | none =>
      -- the runs are in order as they stand
      obtain rfl := List.getLast?_eq_none_iff.1 hx
      exact ⟨patience, by rw [hmerge]; simp⟩
    | some x =>
      have hxmem : x ∈ whole := hback.mem x (List.mem_of_getLast? hx)
      obtain ⟨moving, behind, hsplit, hlast, hfound, hmerge'⟩ :=
        exists_moving hlt hright hxmem (hback.le_getLast hx) ((y :: right).length - 1)
      rw [hmerge, hmerge']
      simp only [hfound]
      cases moving with
      | nil => exact ⟨patience, by simp [hsplit]⟩
      | cons z moving =>
        obtain ⟨rfl, hrest⟩ : y = z ∧ right = moving ++ behind := by simpa using hsplit
        have hmoving : Rising key whole (y :: moving) := (hsplit ▸ hright).of_append.1
        obtain ⟨patience', hoverlap⟩ :=
          mergeOverlap_eq hlt hback hmoving hx rfl hfirst hlast patience
        have htake : (y :: right).take (moving.length + 1) = y :: moving := by simp [hrest]
        have hdrop : (y :: right).drop (moving.length + 1) = behind := by simp [hrest]
        refine ⟨patience', ?_⟩
        simp only [List.length_cons, htake, hdrop, hoverlap]
        rw [List.append_assoc]

end CallAudit.Sorting
