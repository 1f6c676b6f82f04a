import CallAudit.Proofs.MergedRuns
import CallAudit.Proofs.SortedLists

/-!
# Sorting by merging runs is stable sorting

A list is arranged by a run if the run is in rising order and has, for every key, the elements with
that key as the list has them (`Arranges`). There is one such run (`Arranges.unique`), so every way
of sorting that arranges its list gives what `List.mergeSort` gives. Leading runs, insertion and
merging arrange what they take from the list, and the stack holds runs that arrange consecutive
parts of it (`Stacked`). The order in which neighbours on the stack are merged plays no part in
this.
-/

namespace CallAudit.Sorting

variable {α ε κ : Type} [LinearOrder κ] {key : α → κ}

/-! ## Arrangements -/

/-- A list is rearranged into a run in rising order, elements with the same key staying in their
order. -/
structure Arranges (key : α → κ) (xs run : List α) : Prop where
  sorted : run.Pairwise (Directed key .front)
  stable : ∀ k, run.filter (fun a => key a = k) = xs.filter fun a => key a = k

/-- What is merged from two runs has the elements with one key in the order of the runs. -/
theorem filter_merge {left right : List α} (hleft : left.Pairwise (Directed key .front)) (k : κ) :
    (left.merge right (keyLE key)).filter (fun a => key a = k) =
      left.filter (fun a => key a = k) ++ right.filter fun a => key a = k := by
  induction left, right using List.merge.induct (keyLE key) with
  | case1 right => simp
  | case2 left => simp
  | case3 x left y right hle ih =>
    rw [List.cons_merge_cons, if_pos hle, List.filter_cons, List.filter_cons, ih hleft.tail]
    split <;> simp
  | case4 x left y right hle ih =>
    have hlt : key y < key x := by simpa [keyLE] using hle
    rw [List.cons_merge_cons, if_neg hle, List.filter_cons, ih hleft]
    -- no element of the left run has the key of an element that goes before all of them
    by_cases hk : key y = k
    · have hnone : (x :: left).filter (fun a => key a = k) = [] := by
        refine List.filter_eq_nil_iff.2 fun z hz => ?_
        have hxz : key x ≤ key z := by
          rcases List.mem_cons.1 hz with rfl | hz
          · exact le_refl _
          · exact (List.pairwise_cons.1 hleft).1 z hz
        simpa using (lt_of_lt_of_le (hk ▸ hlt) hxz).ne'
      simp [hk, hnone]
    · simp [hk]

namespace Arranges

variable {xs ys run run' : List α}

theorem mem_iff (h : Arranges key xs run) {a : α} : a ∈ run ↔ a ∈ xs := by
  have hmem (l : List α) : a ∈ l ↔ a ∈ l.filter fun b => key b = key a := by simp
  rw [hmem run, hmem xs, h.stable]

/-- An arrangement is a rising run. -/
theorem rising (h : Arranges key xs run) {whole : List α} (hxs : ∀ x ∈ xs, x ∈ whole) :
    Rising key whole run :=
  ⟨h.sorted, fun x hx => hxs x (h.mem_iff.1 hx)⟩

theorem of_sorted (h : xs.Pairwise (Directed key .front)) : Arranges key xs xs := ⟨h, fun _ => rfl⟩

/-- A list that falls strictly is arranged by turning it round: it has no two elements with one
key. -/
theorem of_falling (h : xs.Pairwise fun a b => key b < key a) : Arranges key xs xs.reverse := by
  refine ⟨List.pairwise_reverse.2 (h.imp fun hab => le_of_lt hab), fun k => ?_⟩
  have hone : (xs.filter fun a => key a = k).Pairwise fun _ _ => False := by
    refine (h.filter _).imp_of_mem fun ha hb hab => ?_
    simp only [List.mem_filter, decide_eq_true_eq] at ha hb
    exact absurd (ha.2.trans hb.2.symm) hab.ne'
  rw [List.filter_reverse]
  match hfilter : xs.filter fun a => key a = k with
  | [] => rfl
  | [a] => rfl
  | a :: b :: rest =>
    rw [hfilter] at hone
    exact absurd ((List.pairwise_cons.1 hone).1 b List.mem_cons_self) id

/-- Arrangements of two parts are merged to one of the whole. -/
theorem merge (h : Arranges key xs run) (h' : Arranges key ys run') :
    Arranges key (xs ++ ys) (run.merge run' (keyLE key)) := by
  have hle (a b : α) : keyLE key a b = true ↔ key a ≤ key b := decide_eq_true_iff
  constructor
  · have hrun : run.Pairwise fun a b => keyLE key a b = true :=
      h.sorted.imp fun hab => (hle _ _).2 hab
    have hrun' : run'.Pairwise fun a b => keyLE key a b = true :=
      h'.sorted.imp fun hab => (hle _ _).2 hab
    have hmerged :=
      List.pairwise_merge (le_trans_of_key hle) (le_total_of_key hle) run run' hrun hrun'
    exact hmerged.imp fun hab => (hle _ _).1 hab
  · intro k
    rw [filter_merge h.sorted, h.stable, h'.stable, List.filter_append]

/-- There is one way to arrange a list. -/
theorem unique (h : Arranges key xs run) (h' : Arranges key xs run') : run = run' := by
  have hsame (k : κ) : run.filter (fun a => key a = k) = run'.filter fun a => key a = k :=
    (h.stable k).trans (h'.stable k).symm
  have hsorted := h.sorted
  have hsorted' := h'.sorted
  clear h h'
  induction run generalizing run' with
  | nil =>
    refine (List.eq_nil_iff_forall_not_mem.2 fun a ha => ?_).symm
    have hnone := hsame (key a)
    rw [List.filter_nil, eq_comm, List.filter_eq_nil_iff] at hnone
    simpa using hnone a ha
  | cons a run ih =>
    cases run' with
    | nil => simpa using hsame (key a)
    | cons b run' =>
      obtain ⟨ha, hrun⟩ := List.pairwise_cons.1 hsorted
      obtain ⟨hb, hrun'⟩ := List.pairwise_cons.1 hsorted'
      have hmem {l l' : List α} (h : ∀ k, l.filter (fun a => key a = k) = l'.filter fun a =>
          key a = k) {c : α}
          (hc : c ∈ l) : c ∈ l' := by
        have : c ∈ l.filter fun a => key a = key c := by simpa using hc
        rw [h] at this
        exact (List.mem_filter.1 this).1
      -- the first elements have the least key of all
      have hkey : key a = key b := by
        apply le_antisymm
        · rcases List.mem_cons.1 (hmem (fun k => (hsame k).symm) (c := b) List.mem_cons_self) with
            rfl | hba
          · exact le_refl _
          · exact ha b hba
        · rcases List.mem_cons.1 (hmem hsame (c := a) List.mem_cons_self) with rfl | hab
          · exact le_refl _
          · exact hb a hab
      obtain rfl : a = b := by
        have hfirst := hsame (key a)
        simp only [List.filter_cons, hkey, decide_true, if_true, List.cons.injEq] at hfirst
        exact hfirst.1
      rw [ih (fun k => ?_) hrun hrun']
      have hrest := hsame k
      simp only [List.filter_cons] at hrest
      split at hrest
      · exact (List.cons.inj hrest).2
      · exact hrest

/-- Sorting a list arranges it. -/
theorem mergeSort (xs : List α) : Arranges key xs (xs.mergeSort (keyLE key)) := by
  have hle (a b : α) : keyLE key a b = true ↔ key a ≤ key b := decide_eq_true_iff
  refine ⟨pairwise_mergeSort_key hle xs, fun k => ?_⟩
  refine filter_mergeSort (le_trans_of_key hle) (le_total_of_key hle) fun a b ha hb => ?_
  simp only [decide_eq_true_eq] at ha hb
  exact (hle a b).2 (by rw [ha, hb])

end Arranges

/-! ## Runs -/

variable {lt : α → α → Except ε Bool} {whole : List α}

/-- A run goes on in its direction: rising, or falling strictly. -/
theorem pairwise_cons_cons {falling : Bool} {last x : α} {run : List α}
    (hrun : (x :: run).Pairwise fun a b => decide (key b < key a) = falling)
    (hstep : decide (key x < key last) = falling) :
    (last :: x :: run).Pairwise fun a b => decide (key b < key a) = falling := by
  refine List.pairwise_cons.2 ⟨fun z hz => ?_, hrun⟩
  rcases List.mem_cons.1 hz with rfl | hz
  · exact hstep
  · have hnext := (List.pairwise_cons.1 hrun).1 z hz
    cases falling with
    | true =>
      simp only [decide_eq_true_eq] at hstep hnext ⊢
      exact lt_trans hnext hstep
    | false =>
      simp only [decide_eq_false_iff_not, not_lt] at hstep hnext ⊢
      exact le_trans hstep hnext

/-- A run extends as far as its elements go on in its direction. -/
theorem runLength_eq (hlt : Decides lt key whole) (falling : Bool) {last : α} {xs : List α}
    (hlast : last ∈ whole) (hxs : ∀ x ∈ xs, x ∈ whole) :
    ∃ n, runLength lt falling last xs = .ok n ∧
      (last :: xs.take n).Pairwise fun a b => decide (key b < key a) = falling := by
  induction xs generalizing last with
  | nil => exact ⟨0, rfl, by simp⟩
  | cons x rest ih =>
    obtain ⟨hx, hrest⟩ := List.forall_mem_cons.1 hxs
    rw [runLength, hlt x hx last hlast]
    by_cases hstep : decide (key x < key last) = falling
    · obtain ⟨n, hn, hrun⟩ := ih hx hrest
      refine ⟨n + 1, by simp [hstep, hn], ?_⟩
      rw [List.take_succ_cons]
      exact pairwise_cons_cons hrun hstep
    · exact ⟨0, by simp [hstep], by simp⟩

/-- The leading run arranges the elements that it takes from the list. -/
theorem leadingRun_eq (hlt : Decides lt key whole) {xs : List α} (hxs : ∀ x ∈ xs, x ∈ whole) :
    ∃ first run rest, leadingRun lt xs = .ok (run, rest) ∧ xs = first ++ rest ∧
      Arranges key first run := by
  match xs with
  | [] => exact ⟨[], [], [], rfl, rfl, .of_sorted List.Pairwise.nil⟩
  | [x] => exact ⟨[x], [x], [], rfl, rfl, .of_sorted (List.pairwise_singleton _ x)⟩
  | x :: y :: more =>
    obtain ⟨hx, hy, hmore⟩ : x ∈ whole ∧ y ∈ whole ∧ ∀ z ∈ more, z ∈ whole := by simpa using hxs
    obtain ⟨n, hn, hrest⟩ := runLength_eq hlt (decide (key y < key x)) hy hmore
    have hrun : (x :: y :: more.take n).Pairwise fun a b =>
        decide (key b < key a) = decide (key y < key x) :=
      pairwise_cons_cons hrest rfl
    rw [leadingRun, hlt y hy x hx]
    simp only [hn]
    refine ⟨x :: y :: more.take n, _, _, rfl, by simp, ?_⟩
    by_cases hfalling : key y < key x
    · simp only [hfalling, decide_true, if_true]
      exact .of_falling (hrun.imp fun h => by simpa [hfalling] using h)
    · simp only [hfalling, decide_false, Bool.false_eq_true, if_false]
      exact .of_sorted (hrun.imp fun h => by simpa [hfalling, Directed] using h)

/-- Inserting elements one after the other arranges them with the run. -/
theorem insertAll_eq (hlt : Decides lt key whole) {xs run ys : List α} (hrun : Arranges key xs run)
    (hxs : ∀ x ∈ xs, x ∈ whole) (hys : ∀ y ∈ ys, y ∈ whole) :
    ∃ run', insertAll lt run ys = .ok run' ∧ Arranges key (xs ++ ys) run' := by
  induction ys generalizing xs run with
  | nil => exact ⟨run, rfl, by simpa using hrun⟩
  | cons y rest ih =>
    obtain ⟨hy, hrest⟩ := List.forall_mem_cons.1 hys
    obtain ⟨front, back, rfl, hfront, hback⟩ := (hrun.rising hxs).exists_place hlt hy
    have hplace :
        bisect (testAt (fun x => (lt y x).map not) (front ++ back)) 0 (front ++ back).length =
        .ok front.length :=
      bisect_eq (Nat.zero_le _) (by simp) fun i _ _ =>
        testAt_append (fun x hx => (hfront x hx).2) (fun x hx => (hback x hx).2) i
    -- the run with the element in its place is the run merged with the element
    have hinserted : (front ++ back).merge [y] (keyLE key) = front ++ y :: back := by
      have hle : ∀ x ∈ front, ∀ z ∈ [y].head?, keyLE key x z = true := by
        simpa using fun x hx => (hfront x hx).1
      rw [merge_front_left hle]
      congr 1
      cases back with
      | nil => simp
      | cons x back => simp [(hback x List.mem_cons_self).1]
    have harranged := hrun.merge (.of_sorted (List.pairwise_singleton _ y))
    rw [hinserted] at harranged
    obtain ⟨run', hrun', harranged'⟩ :=
      ih harranged (by simpa using fun x hx => hx.elim (hxs x) (· ▸ hy)) hrest
    refine ⟨run', ?_, by simpa using harranged'⟩
    rw [insertAll, hplace]
    simpa using hrun'

/-- The next run arranges the first elements. -/
theorem nextRun_eq (hlt : Decides lt key whole) (least : Nat) {xs : List α}
    (hxs : ∀ x ∈ xs, x ∈ whole) :
    ∃ first run rest, nextRun lt least xs = .ok (run, rest) ∧ xs = first ++ rest ∧
      Arranges key first run := by
  obtain ⟨first, run, rest, hleading, rfl, hrun⟩ := leadingRun_eq hlt hxs
  have hfirst : ∀ x ∈ first, x ∈ whole := fun x hx => hxs x (List.mem_append_left _ hx)
  have htaken : ∀ x ∈ rest.take (least - run.length), x ∈ whole :=
    fun x hx => hxs x (List.mem_append_right _ (List.mem_of_mem_take hx))
  obtain ⟨run', hinsert, hrun'⟩ := insertAll_eq hlt hrun hfirst htaken
  refine ⟨first ++ rest.take (least - run.length), run', rest.drop (least - run.length), ?_,
    by simp, hrun'⟩
  rw [nextRun, hleading]
  simp only [hinsert]

/-! ## The stack of runs -/

/-- The runs of a stack arrange consecutive parts of a list, the top run the last part. -/
def Stacked (key : α → κ) : List (List α) → List α → Prop
  | [], xs => xs = []
  | run :: runs, xs =>
    ∃ below top, xs = below ++ top ∧ Stacked key runs below ∧ Arranges key top run

/-- The runs of a stack are rising. -/
theorem Stacked.rising {runs : List (List α)} {xs : List α} (h : Stacked key runs xs)
    (hxs : ∀ x ∈ xs, x ∈ whole) : ∀ run ∈ runs, Rising key whole run := by
  induction runs generalizing xs with
  | nil => simp
  | cons run runs ih =>
    obtain ⟨below, top, rfl, hbelow, htop⟩ := h
    have hmem : (∀ x ∈ below, x ∈ whole) ∧ ∀ x ∈ top, x ∈ whole := List.forall_mem_append.1 hxs
    exact List.forall_mem_cons.2 ⟨htop.rising hmem.2, ih hbelow hmem.1⟩

theorem Stacked.single {run xs : List α} (h : Stacked key [run] xs) : Arranges key xs run := by
  obtain ⟨below, top, rfl, rfl, htop⟩ := h
  exact htop

/-- Two neighbouring runs are merged into one. -/
theorem Stacked.merge (hlt : Decides lt key whole) {runs : List (List α)} {first second xs : List α}
    (h : Stacked key (second :: first :: runs) xs) (hxs : ∀ x ∈ xs, x ∈ whole) (patience : Nat) :
    ∃ merged patience', merge lt patience first second = .ok (merged, patience') ∧
      Stacked key (merged :: runs) xs := by
  have hrising := h.rising hxs
  obtain ⟨patience', hmerge⟩ :=
    merge_eq hlt (hrising first (by simp)) (hrising second (by simp)) patience
  obtain ⟨_, top, rfl, ⟨below, middle, rfl, hbelow, hfirst⟩, hsecond⟩ := h
  exact ⟨_, patience', hmerge, below, middle ++ top, by simp, hbelow, hfirst.merge hsecond⟩

/-- Two runs at the top of a stack may be merged. -/
theorem Stacked.of_merge (hlt : Decides lt key whole) {runs : List (List α)}
    {first second xs run : List α} (h : Stacked key (second :: first :: runs) xs)
    (hxs : ∀ x ∈ xs, x ∈ whole) {patience patience' : Nat}
    (hmerge : Sorting.merge lt patience first second = .ok (run, patience')) :
    Stacked key (run :: runs) xs := by
  obtain ⟨merged, _, hmerged, hstack⟩ := h.merge hlt hxs patience
  obtain ⟨rfl, -⟩ : merged = run ∧ _ = patience' := by simpa [hmerged] using hmerge
  exact hstack

/-- Settling a stack succeeds and keeps what it holds. -/
theorem settle_eq (hlt : Decides lt key whole) (depth patience : Nat) {stack : List (Pending α)}
    {xs : List α} (hstack : Stacked key (stack.map (·.run)) xs) (hxs : ∀ x ∈ xs, x ∈ whole) :
    ∃ stack' patience', settle lt depth patience stack = .ok (stack', patience') ∧
      Stacked key (stack'.map (·.run)) xs := by
  fun_induction settle lt depth patience stack with
  | case1 patience => exact ⟨_, _, rfl, hstack⟩
  | case2 patience top => exact ⟨_, _, rfl, hstack⟩
  | case3 patience top below rest _ e herror =>
    obtain ⟨merged, _, hmerge, -⟩ := hstack.merge hlt hxs patience
    simp [hmerge] at herror
  | case4 patience top below rest _ run patience' hmerge ih =>
    exact ih (hstack.of_merge hlt hxs hmerge)
  | case5 patience top below rest _ => exact ⟨_, _, rfl, hstack⟩

/-- Pushing a run succeeds and adds its elements. -/
theorem push_eq (hlt : Decides lt key whole) (n patience : Nat) {stack : List (Pending α)}
    {xs ys run : List α} (hstack : Stacked key (stack.map (·.run)) xs) (hrun : Arranges key ys run)
    (hxs : ∀ x ∈ xs, x ∈ whole) :
    ∃ stack' patience', push lt n patience stack run = .ok (stack', patience') ∧
      Stacked key (stack'.map (·.run)) (xs ++ ys) := by
  rw [push.eq_def]
  split
  · exact ⟨_, _, rfl, xs, ys, rfl, hstack, hrun⟩
  · next top rest =>
    obtain ⟨stack', patience', hsettle, hstack'⟩ := settle_eq hlt
      (boundaryDepth n (elementCount rest) top.run.length run.length) patience hstack hxs
    simp only [hsettle]
    cases stack' with
    | nil => exact ⟨_, _, rfl, xs, ys, rfl, hstack', hrun⟩
    | cons top' rest' => exact ⟨_, _, rfl, xs, ys, rfl, hstack', hrun⟩

/-- Whichever neighbours are merged first, one run is left in the end. -/
theorem collapse_eq (hlt : Decides lt key whole) (patience : Nat) {runs : List (List α)}
    {xs : List α} (hruns : Stacked key runs xs) (hxs : ∀ x ∈ xs, x ∈ whole) :
    ∃ sorted, collapse lt patience runs = .ok sorted ∧ Arranges key xs sorted := by
  fun_induction collapse lt patience runs with
  | case1 =>
    obtain rfl : xs = [] := hruns
    exact ⟨[], rfl, .of_sorted List.Pairwise.nil⟩
  | case2 patience run => exact ⟨run, rfl, hruns.single⟩
  | case3 patience third second e herror =>
    obtain ⟨merged, _, hmerge, -⟩ := hruns.merge hlt hxs patience
    simp [hmerge] at herror
  | case4 patience third second run patience' hmerge =>
    exact ⟨run, rfl, (hruns.of_merge hlt hxs hmerge).single⟩
  | case5 patience third second first rest _ e herror =>
    obtain ⟨below, top, rfl, hbelow, htop⟩ := hruns
    obtain ⟨merged, _, hmerge, -⟩ := hbelow.merge hlt (List.forall_mem_append.1 hxs).1 patience
    simp [hmerge] at herror
  | case6 patience third second first rest _ run patience' hmerge ih =>
    -- the top run is set aside while the two below it are merged
    obtain ⟨below, top, rfl, hbelow, htop⟩ := hruns
    exact ih ⟨below, top, rfl, hbelow.of_merge hlt (List.forall_mem_append.1 hxs).1 hmerge, htop⟩
  | case7 patience third second first rest _ e herror =>
    obtain ⟨merged, _, hmerge, -⟩ := hruns.merge hlt hxs patience
    simp [hmerge] at herror
  | case8 patience third second first rest _ run patience' hmerge ih =>
    exact ih (hruns.of_merge hlt hxs hmerge)

/-- Sorting runs succeeds and arranges all elements. -/
theorem sortRuns_eq (hlt : Decides lt key whole) (n patience : Nat) {stack : List (Pending α)}
    {xs ys : List α} (hstack : Stacked key (stack.map (·.run)) xs) (hxs : ∀ x ∈ xs, x ∈ whole)
    (hys : ∀ y ∈ ys, y ∈ whole) :
    ∃ sorted, sortRuns lt n patience stack ys = .ok sorted ∧ Arranges key (xs ++ ys) sorted := by
  -- the stack arranges what has been read, and each round reads one more run
  fun_induction sortRuns lt n patience stack ys generalizing xs with
  | case1 patience stack => simpa using collapse_eq hlt patience hstack hxs
  | case2 patience stack y rest e herror =>
    obtain ⟨first, run, rest', hnext, -⟩ := nextRun_eq hlt (leastRun n false) hys
    simp [hnext] at herror
  | case3 patience stack y rest run rest' hnext' e herror =>
    obtain ⟨first, run₁, rest₁, hnext, -, hrun⟩ := nextRun_eq hlt (leastRun n false) hys
    obtain ⟨rfl, rfl⟩ : run₁ = run ∧ rest₁ = rest' := by simpa [hnext] using hnext'
    obtain ⟨stack', patience', hpush, -⟩ := push_eq hlt n patience hstack hrun hxs
    simp [hpush] at herror
  | case4 patience stack y rest run rest' hnext' stack' patience' hpush' ih =>
    obtain ⟨first, run₁, rest₁, hnext, hsplit, hrun⟩ := nextRun_eq hlt (leastRun n false) hys
    obtain ⟨rfl, rfl⟩ : run₁ = run ∧ rest₁ = rest' := by simpa [hnext] using hnext'
    obtain ⟨stack₁, patience₁, hpush, hstack₁⟩ := push_eq hlt n patience hstack hrun hxs
    obtain ⟨rfl, rfl⟩ : stack₁ = stack' ∧ patience₁ = patience' := by simpa [hpush] using hpush'
    rw [hsplit] at hys ⊢
    obtain ⟨hfirst, hrest⟩ := List.forall_mem_append.1 hys
    obtain ⟨sorted, hsort, harranged⟩ := ih hstack₁ (List.forall_mem_append.2 ⟨hxs, hfirst⟩) hrest
    exact ⟨sorted, hsort, by simpa using harranged⟩

/-! ## Stable sorting -/

/-- The list in the order of keys, or in the reverse order, equal keys staying in their order. -/
def stableSort (key : α → κ) (falling : Bool) (xs : List α) : List α :=
  if falling then (xs.reverse.mergeSort (keyLE key)).reverse else xs.mergeSort (keyLE key)

/-- Sorting loses no element. -/
theorem perm_stableSort (key : α → κ) (falling : Bool) (xs : List α) :
    (stableSort key falling xs).Perm xs := by
  rw [stableSort]
  split
  · exact (List.reverse_perm _).trans ((List.mergeSort_perm _ _).trans (List.reverse_perm xs))
  · exact List.mergeSort_perm _ _

/-- Sorted elements are in the order of their keys. -/
theorem pairwise_stableSort (key : α → κ) (falling : Bool) (xs : List α) :
    (stableSort key falling xs).Pairwise fun a b => if falling then key b ≤ key a
      else key a ≤ key b := by
  cases falling with
  | true => exact List.pairwise_reverse.2 (Arranges.mergeSort xs.reverse).sorted
  | false => exact (Arranges.mergeSort xs).sorted

/-- Elements with the same key keep their order. -/
theorem filter_key_stableSort (key : α → κ) (falling : Bool) (xs : List α) (k : κ) :
    (stableSort key falling xs).filter (fun a => key a = k) = xs.filter fun a => key a = k := by
  cases falling with
  | true =>
    show (xs.reverse.mergeSort (keyLE key)).reverse.filter (fun a => key a = k) = _
    rw [List.filter_reverse, (Arranges.mergeSort xs.reverse).stable, List.filter_reverse,
      List.reverse_reverse]
  | false => exact (Arranges.mergeSort xs).stable k

/-- Elements that are told apart by no key stay in their order in either direction. -/
theorem filter_stableSort (falling : Bool) {xs : List α} {p : α → Bool}
    (h : ∀ a ∈ xs, ∀ b ∈ xs, p a = true → p b = true → key a = key b) :
    (stableSort key falling xs).filter p = xs.filter p := by
  have hmem {a : α} : a ∈ stableSort key falling xs ↔ a ∈ xs :=
    (perm_stableSort key falling xs).mem_iff
  by_cases hp : ∃ a ∈ xs, p a = true
  · obtain ⟨a, ha, hpa⟩ := hp
    -- all elements in question have one key
    have hkey {l : List α} (hl : ∀ b ∈ l, b ∈ xs) :
        l.filter p = (l.filter fun b => key b = key a).filter p := by
      rw [List.filter_filter]
      refine List.filter_congr fun b hb => ?_
      cases hpb : p b with
      | true => simp [h b (hl b hb) a ha hpb hpa]
      | false => simp
    rw [hkey fun b hb => hmem.1 hb, filter_key_stableSort, ← hkey fun b hb => hb]
  · have hnone {l : List α} (hl : ∀ b ∈ l, b ∈ xs) : l.filter p = [] :=
      List.filter_eq_nil_iff.2 fun b hb hpb => hp ⟨b, hl b hb, hpb⟩
    rw [hnone fun b hb => hmem.1 hb, hnone fun b hb => hb]

/-- Sorting depends on how the members are compared only. -/
theorem mergeSort_congr {le le' : α → α → Bool} {l : List α}
    (h : ∀ a ∈ l, ∀ b ∈ l, le a b = le' a b) : l.mergeSort le = l.mergeSort le' := by
  simpa using List.map_mergeSort (f := id) h

/-- Sorting by the keys of images is sorting the images. -/
theorem stableSort_map {β : Type} (f : β → α) (falling : Bool) (xs : List β) :
    stableSort key falling (xs.map f) = (stableSort (fun b => key (f b)) falling xs).map f := by
  have hmap (ys : List β) :
      (ys.map f).mergeSort (keyLE key) = (ys.mergeSort (keyLE fun b => key (f b))).map f := by
    refine (List.map_mergeSort ?_).symm
    intro a _ b _
    rfl
  cases falling with
  | true =>
    show ((xs.map f).reverse.mergeSort (keyLE key)).reverse = _
    rw [← List.map_reverse, hmap, ← List.map_reverse]
    rfl
  | false => exact hmap xs

/-- **Sorting by merging runs is stable sorting.** If a comparison decides for all elements of a
list which of two keys is smaller, the list is sorted by its keys, and elements with one key stay in
their order. -/
theorem sortStable_eq (falling : Bool) {xs : List α} (hlt : Decides lt key xs) :
    sortStable lt falling xs = .ok (stableSort key falling xs) := by
  have hrising {ys : List α} (hys : ∀ y ∈ ys, y ∈ xs) :
      sortRising lt ys = .ok (ys.mergeSort (keyLE key)) := by
    have hempty : Stacked key (([] : List (Pending α)).map (·.run)) [] := rfl
    obtain ⟨sorted, hsort, harranged⟩ := sortRuns_eq hlt ys.length worthwhile hempty (by simp) hys
    rw [sortRising, hsort, harranged.unique (.mergeSort ys)]
  rw [sortStable, stableSort]
  cases falling with
  | true => simp [hrising fun y hy => List.mem_reverse.1 hy]
  | false => simpa using hrising fun y hy => hy

/-- An element alone is compared with nothing. -/
theorem sortStable_of_length_le_one (lt : α → α → Except ε Bool) (falling : Bool) {xs : List α}
    (h : xs.length ≤ 1) : sortStable lt falling xs = .ok xs := by
  match xs with
  | [] => cases falling <;> simp [sortStable, sortRising, sortRuns, collapse]
  | [x] =>
    have hnext (least : Nat) : nextRun lt least [x] = .ok ([x], []) := by
      simp [nextRun, leadingRun, insertAll]
    have hrising : sortRising lt [x] = .ok [x] := by
      rw [sortRising, sortRuns]
      split
      · next e herror => simp [hnext] at herror
      · next run rest hrun =>
        obtain ⟨rfl, rfl⟩ : [x] = run ∧ [] = rest := by simpa [hnext] using hrun
        simp [push, sortRuns, collapse]
    cases falling <;> simp [sortStable, hrising]
  | x :: y :: rest => simp at h

end CallAudit.Sorting
