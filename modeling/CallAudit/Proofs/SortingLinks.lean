import CallAudit.Proofs.Results
import CallAudit.Sorting.Basic
import Mathlib.Data.List.Pairwise
import Mathlib.Data.List.Perm.Basic

/-!
# Sorting compares everything

A comparison may refuse two elements. A list that has been sorted all the same holds no two elements
that it would refuse: the comparisons that are made link all elements of the list. This is so for
every run, since each element is compared with one that belongs to the run already; and two runs are
merged only after an element of one has been compared with an element of the other.

`Linking` collects what is asked of a relation for that, `Linking.append` is the step from two lists
to one, and `Linking.sortStable` is the result: sorting permutes the list, and any two of its
elements are related.
-/

namespace CallAudit.Sorting

variable {α ε : Type} {lt : α → α → Except ε Bool} {R : α → α → Prop}

/-! ## Relations that comparisons establish -/

/-- A relation between elements that can be compared, such as that of being of one kind. -/
structure Linking (lt : α → α → Except ε Bool) (R : α → α → Prop) : Prop where
  symm : ∀ {a b}, R a b → R b a
  trans : ∀ {a b c}, R a b → R b c → R a c
  of_lt : ∀ {a b r}, lt a b = .ok r → R a b

namespace Linking

/-- Elements that are linked in one order are linked in every order. -/
theorem perm (hR : Linking lt R) {xs ys : List α} (h : xs.Perm ys) (hxs : xs.Pairwise R) :
    ys.Pairwise R :=
  h.pairwise hxs fun hab => hR.symm hab

/-- What is related to one member is related to all. -/
theorem of_mem (hR : Linking lt R) {xs : List α} (hxs : xs.Pairwise R) {a b x : α} (ha : a ∈ xs)
    (hx : x ∈ xs) (hab : R a b) : R x b := by
  have : Std.Symm R := ⟨fun _ _ => hR.symm⟩
  by_cases hxa : x = a
  · rwa [hxa]
  · exact hR.trans (hxs.forall hx ha hxa) hab

/-- One comparison links two lists. -/
theorem append (hR : Linking lt R) {xs ys : List α} (hxs : xs.Pairwise R) (hys : ys.Pairwise R)
    {a b : α} (ha : a ∈ xs) (hb : b ∈ ys) (hab : R a b) : (xs ++ ys).Pairwise R := by
  refine List.pairwise_append.2 ⟨hxs, hys, fun x hx y hy => ?_⟩
  have hxb : R x b := hR.of_mem hxs ha hx hab
  exact hR.symm (hR.of_mem hys hb hy (hR.symm hxb))

end Linking

/-! ## Runs -/

/-- Each element that continues a run has been compared with its predecessor. -/
theorem Linking.runLength (hR : Linking lt R) {falling : Bool} {last : α} {xs : List α} {n : Nat}
    (h : runLength lt falling last xs = .ok n) : (last :: xs.take n).Pairwise R := by
  induction xs generalizing last n with
  | nil => simp
  | cons x rest ih =>
    rw [Sorting.runLength] at h
    split at h
    · simp at h
    · next b hlt =>
      split at h
      · split at h
        · simp at h
        · next m hm =>
          obtain rfl : m + 1 = n := by simpa using h
          rw [List.take_succ_cons]
          exact hR.append (List.pairwise_singleton R last) (ih hm) (List.mem_singleton_self last)
            List.mem_cons_self (hR.symm (hR.of_lt hlt))
      · obtain rfl : 0 = n := by simpa using h
        simp

/-- The elements of a leading run are linked, and none is lost. -/
theorem Linking.leadingRun (hR : Linking lt R) {xs run rest : List α}
    (h : leadingRun lt xs = .ok (run, rest)) : run.Pairwise R ∧ (run ++ rest).Perm xs := by
  match xs with
  | [] => simp_all [Sorting.leadingRun]
  | [x] =>
    obtain ⟨rfl, rfl⟩ : [x] = run ∧ [] = rest := by simpa [Sorting.leadingRun] using h
    simp
  | x :: y :: more =>
    rw [Sorting.leadingRun] at h
    split at h
    · simp at h
    · next falling hlt =>
      split at h
      · simp at h
      · next n hn =>
        simp only [Except.ok.injEq, Prod.mk.injEq] at h
        obtain ⟨rfl, rfl⟩ := h
        have hrun : (x :: y :: more.take n).Pairwise R :=
          hR.append (List.pairwise_singleton R x) (hR.runLength hn) (List.mem_singleton_self x)
            List.mem_cons_self (hR.symm (hR.of_lt hlt))
        have hperm :
            (if falling then (x :: y :: more.take n).reverse else x :: y :: more.take n).Perm
            (x :: y :: more.take n) := by
          split
          · exact List.reverse_perm _
          · exact List.Perm.refl _
        refine ⟨hR.perm hperm.symm hrun, (hperm.append_right _).trans (.of_eq ?_)⟩
        simp

/-- A search by halving looks at the element in the middle first. -/
theorem bisect_middle {before : Nat → Except ε Bool} {low high place : Nat} (hlow : low < high)
    (h : bisect before low high = .ok place) : ∃ r, before (low + (high - low) / 2) = .ok r := by
  rw [bisect, if_pos hlow] at h
  dsimp only at h
  cases hmiddle : before (low + (high - low) / 2) with
  | error e => simp [hmiddle] at h
  | ok r => exact ⟨r, rfl⟩

/-- An element is compared with one of the run before it is inserted. -/
theorem Linking.insertAll (hR : Linking lt R) {run xs run' : List α} (hrun : run.Pairwise R)
    (h : insertAll lt run xs = .ok run') : run'.Pairwise R ∧ run'.Perm (run ++ xs) := by
  induction xs generalizing run with
  | nil =>
    obtain rfl : run = run' := by simpa [Sorting.insertAll] using h
    exact ⟨hrun, by simp⟩
  | cons x rest ih =>
    rw [Sorting.insertAll] at h
    split at h
    · simp at h
    · next place hplace =>
      have hinsert : (run ++ [x]).Perm (run.take place ++ x :: run.drop place) := by
        conv_lhs => rw [← List.take_append_drop place run]
        rw [List.append_assoc]
        exact List.Perm.append_left _ (List.perm_append_singleton _ _)
      have hlinked : (run ++ [x]).Pairwise R := by
        by_cases hempty : run = []
        · simp [hempty]
        · obtain ⟨r, hr⟩ := bisect_middle (List.length_pos_iff.2 hempty) hplace
          have hmiddle : 0 + (run.length - 0) / 2 < run.length := by
            have := List.length_pos_iff.2 hempty
            omega
          rw [testAt, List.getElem?_eq_getElem hmiddle] at hr
          obtain ⟨b, hb, -⟩ := map_eq_ok.1 hr
          exact hR.append hrun (List.pairwise_singleton R x) (List.getElem_mem hmiddle)
            (List.mem_singleton_self x) (hR.symm (hR.of_lt hb))
      obtain ⟨hpairwise, hperm⟩ := ih (hR.perm hinsert hlinked) h
      refine ⟨hpairwise, hperm.trans ?_⟩
      rw [List.append_cons run x rest]
      exact hinsert.symm.append_right rest

/-- So are those of a run that was extended. -/
theorem Linking.nextRun (hR : Linking lt R) {least : Nat} {xs run rest : List α}
    (h : nextRun lt least xs = .ok (run, rest)) : run.Pairwise R ∧ (run ++ rest).Perm xs := by
  rw [Sorting.nextRun] at h
  split at h
  · simp at h
  · next run₀ rest₀ hleading =>
    split at h
    · simp at h
    · next run' hinsert =>
      simp only [Except.ok.injEq, Prod.mk.injEq] at h
      obtain ⟨rfl, rfl⟩ := h
      obtain ⟨hrun, hperm⟩ := hR.leadingRun hleading
      obtain ⟨hrun', hperm'⟩ := hR.insertAll hrun hinsert
      refine ⟨hrun', (hperm'.append_right _).trans (.trans (.of_eq ?_) hperm)⟩
      rw [List.append_assoc, List.take_append_drop]

/-! ## Merging -/

namespace Merging

/-- All elements of two runs that are being merged. -/
def elements (m : Merging α) : List α := m.taken ++ (m.left ++ m.right)

/-- No element is lost when some are taken from the left. -/
theorem perm_takeLeft (m : Merging α) (n : Nat) : (m.takeLeft n).elements.Perm m.elements := by
  have hsplit : m.left.take n ++ m.left.drop n = m.left := List.take_append_drop n m.left
  show ((m.left.take n).reverse ++ m.taken ++ (m.left.drop n ++ m.right)).Perm
    (m.taken ++ (m.left ++ m.right))
  rw [List.append_assoc]
  nth_rewrite 3 [← hsplit]
  rw [List.append_assoc (m.left.take n)]
  refine (List.perm_append_comm_assoc _ _ _).trans (List.Perm.append_left _ ?_)
  exact (List.reverse_perm _).append_right _

/-- No element is lost when some are taken from the right. -/
theorem perm_takeRight (m : Merging α) (n : Nat) : (m.takeRight n).elements.Perm m.elements := by
  have hsplit : m.right.take n ++ m.right.drop n = m.right := List.take_append_drop n m.right
  show ((m.right.take n).reverse ++ m.taken ++ (m.left ++ m.right.drop n)).Perm
    (m.taken ++ (m.left ++ m.right))
  rw [List.append_assoc]
  nth_rewrite 3 [← hsplit]
  refine (List.perm_append_comm_assoc _ _ _).trans (List.Perm.append_left _ ?_)
  refine .trans ?_ (List.perm_append_comm_assoc _ _ _)
  exact (List.reverse_perm _).append_right _

/-- No element is lost at the end of a merge. -/
theorem perm_finish (m : Merging α) (side : Side) : (m.finish side).Perm m.elements := by
  cases side with
  | front => exact (List.reverse_perm _).append List.perm_append_comm
  | back => exact ((List.reverse_perm _).append_right _).trans List.perm_append_comm

/-- One element is taken from either run. -/
theorem takeOne_cases {m m' : Merging α} {side : Side} {fromRight : Bool}
    (h : m.takeOne lt side = .ok (m', fromRight)) :
    fromRight = true ∧ m' = m.takeRight 1 ∨ fromRight = false ∧ m' = m.takeLeft 1 := by
  rw [takeOne.eq_def] at h
  grind

/-- No element is lost when one is taken. -/
theorem perm_takeOne {m m' : Merging α} {side : Side} {fromRight : Bool}
    (h : m.takeOne lt side = .ok (m', fromRight)) : m'.elements.Perm m.elements := by
  obtain ⟨-, rfl⟩ | ⟨-, rfl⟩ := takeOne_cases h
  · exact m.perm_takeRight 1
  · exact m.perm_takeLeft 1

/-- No element is lost in the second half of a round. -/
theorem perm_roundRight {m : Merging α} {side : Side} {k : Nat} {r : Round α}
    (h : m.roundRight lt side k = .ok r) : r.merging.elements.Perm m.elements := by
  rw [roundRight] at h
  split at h
  · obtain rfl := Except.ok.inj h
    exact List.Perm.refl _
  · split at h
    · simp at h
    · next n hn =>
      obtain rfl := Except.ok.inj h
      dsimp only
      split
      · exact m.perm_takeRight n
      · exact (perm_takeLeft _ 1).trans (m.perm_takeRight n)

/-- No element is lost in a round. -/
theorem perm_round {m : Merging α} {side : Side} {r : Round α} (h : m.round lt side = .ok r) :
    r.merging.elements.Perm m.elements := by
  rw [round] at h
  split at h
  · obtain rfl := Except.ok.inj h
    exact List.Perm.refl _
  · split at h
    · simp at h
    · next n hn =>
      dsimp only at h
      have hleft := m.perm_takeLeft n
      have hright := ((m.takeLeft n).perm_takeRight 1).trans hleft
      split at h
      · obtain rfl := Except.ok.inj h
        exact hleft
      · split at h
        · obtain rfl := Except.ok.inj h
          exact hright
        · exact (perm_roundRight h).trans hright

/-- Whatever the pace, merging takes each element once. -/
theorem perm_complete {side : Side} {pace : Pace} {patience : Nat} {m : Merging α}
    {merged : List α × Nat} (h : m.complete lt side pace patience = .ok merged) :
    merged.1.Perm m.elements := by
  -- induction along the steps of merging: each of them permutes, and so does the end
  fun_induction complete lt side pace patience m with
  | case1 =>
    obtain rfl := Except.ok.inj h
    exact perm_finish _ _
  | case2 => simp at h
  | case3 patience m _ leftWins rightWins m' hone ih => exact (ih h).trans (perm_takeOne hone)
  | case4 patience m _ leftWins rightWins m' hone ih => exact (ih h).trans (perm_takeOne hone)
  | case5 => simp at h
  | case6 patience m _ r hround _ =>
    obtain rfl := Except.ok.inj h
    exact (perm_finish _ _).trans (perm_round hround)
  | case7 patience m _ r hround _ _ ih => exact (ih h).trans (perm_round hround)
  | case8 patience m _ r hround _ _ ih => exact (ih h).trans (perm_round hround)

end Merging

/-- No element is lost when runs that overlap are merged. -/
theorem perm_mergeOverlap {patience : Nat} {left right : List α} {merged : List α × Nat}
    (h : mergeOverlap lt patience left right = .ok merged) : merged.1.Perm (left ++ right) := by
  rw [mergeOverlap] at h
  split at h
  · exact (Merging.perm_complete h).trans (Merging.perm_takeRight _ 1)
  · refine (Merging.perm_complete h).trans ((Merging.perm_takeLeft _ 1).trans ?_)
    exact (List.reverse_perm _).append (List.reverse_perm _)

/-- A search by strides looks at the element at its start first. -/
theorem gallop_start {before : α → Except ε Bool} {run : List α} {start place : Nat} {y : α}
    (h : gallop before run start = .ok place) (hy : run[start]? = some y) :
    ∃ r, before y = .ok r := by
  rw [gallop, testAt, hy] at h
  dsimp only at h
  cases hbefore : before y with
  | error e => simp [hbefore] at h
  | ok r => exact ⟨r, rfl⟩

/-- No element is lost when runs are merged. -/
theorem perm_merge {patience : Nat} {left right : List α} {merged : List α × Nat}
    (h : merge lt patience left right = .ok merged) : merged.1.Perm (left ++ right) := by
  rw [merge.eq_def] at h
  split at h
  · obtain rfl := Except.ok.inj h
    simp
  · next y rest =>
    split at h
    · simp at h
    · next settled hsettled =>
      split at h
      · obtain rfl := Except.ok.inj h
        exact List.Perm.refl _
      · split at h
        · simp at h
        · obtain rfl := Except.ok.inj h
          exact List.Perm.refl _
        · next moving hmoving _ =>
          split at h
          · simp at h
          · next overlap patience' hoverlap =>
            obtain rfl := Except.ok.inj h
            have hperm := perm_mergeOverlap hoverlap
            -- what stays in front and what stays behind are put back to the overlap
            refine ((hperm.append_left _).append_right _).trans (.of_eq ?_)
            rw [← List.append_assoc, List.take_append_drop, List.append_assoc,
              List.take_append_drop]

/-- The elements of merged runs are linked. -/
theorem Linking.merge (hR : Linking lt R) {patience : Nat} {left right : List α}
    {merged : List α × Nat} (hleft : left.Pairwise R) (hright : right.Pairwise R)
    (h : merge lt patience left right = .ok merged) : merged.1.Pairwise R := by
  refine hR.perm (perm_merge h).symm ?_
  cases left with
  | nil => exact hright
  | cons x left =>
    cases right with
    | nil => rwa [List.append_nil]
    | cons y right =>
      -- the first elements are compared before anything else
      have hcompared : ∃ r, (lt y x).map not = .ok r := by
        rw [merge.eq_def] at h
        dsimp only at h
        split at h
        · simp at h
        · next hsettled =>
          obtain ⟨r, hr⟩ := gallop_start (y := x) hsettled rfl
          exact ⟨r, hr⟩
      obtain ⟨r, hr⟩ := hcompared
      obtain ⟨b, hb, -⟩ := map_eq_ok.1 hr
      exact hR.append hleft hright List.mem_cons_self List.mem_cons_self (hR.symm (hR.of_lt hb))

/-! ## The stack of runs -/

/-- The elements of the runs that wait to be merged, the lowest run first. -/
def waiting (stack : List (Pending α)) : List α := stack.reverse.flatMap (·.run)

theorem waiting_cons (p : Pending α) (stack : List (Pending α)) :
    waiting (p :: stack) = waiting stack ++ p.run := by
  simp [waiting]

/-- Settling the stack keeps the runs linked and loses no element. -/
theorem Linking.settle (hR : Linking lt R) {depth patience : Nat} {stack : List (Pending α)}
    {settled : List (Pending α) × Nat} (hstack : ∀ p ∈ stack, p.run.Pairwise R)
    (h : settle lt depth patience stack = .ok settled) :
    (∀ p ∈ settled.1, p.run.Pairwise R) ∧ (waiting settled.1).Perm (waiting stack) := by
  fun_induction Sorting.settle lt depth patience stack with
  | case1 patience =>
    obtain rfl := Except.ok.inj h
    exact ⟨hstack, List.Perm.refl _⟩
  | case2 patience top =>
    obtain rfl := Except.ok.inj h
    exact ⟨hstack, List.Perm.refl _⟩
  | case3 => simp at h
  | case4 patience top below rest _ run patience' hmerge ih =>
    obtain ⟨htop, hbelow, hrest⟩ : top.run.Pairwise R ∧ below.run.Pairwise R ∧
        ∀ p ∈ rest, p.run.Pairwise R := by
      simpa using hstack
    have hrun : run.Pairwise R := hR.merge hbelow htop hmerge
    obtain ⟨hsettled, hperm⟩ := ih (by simpa using ⟨hrun, hrest⟩) h
    refine ⟨hsettled, hperm.trans ?_⟩
    rw [waiting_cons, waiting_cons, waiting_cons, List.append_assoc]
    exact (perm_merge hmerge).append_left _
  | case5 patience top below rest _ =>
    obtain rfl := Except.ok.inj h
    exact ⟨hstack, List.Perm.refl _⟩

/-- So does pushing a run. -/
theorem Linking.push (hR : Linking lt R) {n patience : Nat} {stack : List (Pending α)}
    {run : List α} {pushed : List (Pending α) × Nat} (hstack : ∀ p ∈ stack, p.run.Pairwise R)
    (hrun : run.Pairwise R) (h : push lt n patience stack run = .ok pushed) :
    (∀ p ∈ pushed.1, p.run.Pairwise R) ∧ (waiting pushed.1).Perm (waiting stack ++ run) := by
  rw [push.eq_def] at h
  split at h
  · obtain rfl := Except.ok.inj h
    simpa [waiting] using hrun
  · next top rest =>
    dsimp only at h
    split at h
    · simp at h
    · next hsettle =>
      obtain rfl := Except.ok.inj h
      obtain ⟨-, hperm⟩ := hR.settle hstack hsettle
      exact ⟨by simpa using hrun, by simpa [waiting_cons] using hperm.append_right run⟩
    · next top' rest' patience' hsettle =>
      obtain rfl := Except.ok.inj h
      obtain ⟨hsettled, hperm⟩ := hR.settle hstack hsettle
      exact ⟨by simpa using ⟨hrun, by simpa using hsettled⟩,
        by simpa [waiting_cons] using hperm.append_right run⟩

/-- So does merging all that is left. -/
theorem Linking.collapse (hR : Linking lt R) {patience : Nat} {runs : List (List α)}
    {sorted : List α} (hruns : ∀ run ∈ runs, run.Pairwise R)
    (h : collapse lt patience runs = .ok sorted) :
    sorted.Pairwise R ∧ sorted.Perm runs.reverse.flatten := by
  -- the top run is merged with its neighbour, or the two runs below it are
  fun_induction Sorting.collapse lt patience runs with
  | case1 =>
    obtain rfl := Except.ok.inj h
    simp
  | case2 patience run =>
    obtain rfl := Except.ok.inj h
    simpa using hruns
  | case3 => simp at h
  | case4 patience third second run _ hmerge =>
    obtain rfl := Except.ok.inj h
    obtain ⟨hthird, hsecond⟩ : third.Pairwise R ∧ second.Pairwise R := by simpa using hruns
    exact ⟨hR.merge hsecond hthird hmerge, by simpa using perm_merge hmerge⟩
  | case5 => simp at h
  | case6 patience third second first rest _ run patience' hmerge ih =>
    obtain ⟨hthird, hsecond, hfirst, hrest⟩ :
        third.Pairwise R ∧ second.Pairwise R ∧ first.Pairwise R ∧
        ∀ run ∈ rest, run.Pairwise R := by simpa using hruns
    have hrun : run.Pairwise R := hR.merge hfirst hsecond hmerge
    obtain ⟨hsorted, hperm⟩ := ih (by simpa using ⟨hthird, hrun, hrest⟩) h
    refine ⟨hsorted, hperm.trans ?_⟩
    have hone := ((perm_merge hmerge).append_left rest.reverse.flatten).append_right third
    simpa using hone
  | case7 => simp at h
  | case8 patience third second first rest _ run patience' hmerge ih =>
    obtain ⟨hthird, hsecond, hfirst, hrest⟩ :
        third.Pairwise R ∧ second.Pairwise R ∧ first.Pairwise R ∧
        ∀ run ∈ rest, run.Pairwise R := by simpa using hruns
    have hrun : run.Pairwise R := hR.merge hsecond hthird hmerge
    obtain ⟨hsorted, hperm⟩ := ih (by simpa using ⟨hrun, hfirst, hrest⟩) h
    refine ⟨hsorted, hperm.trans ?_⟩
    have hone := (perm_merge hmerge).append_left (rest.reverse.flatten ++ first)
    simpa using hone

/-- If the runs of a list are sorted, then all of its elements are linked. -/
theorem Linking.sortRuns (hR : Linking lt R) {n patience : Nat} {stack : List (Pending α)}
    {xs sorted : List α} (hstack : ∀ p ∈ stack, p.run.Pairwise R)
    (h : sortRuns lt n patience stack xs = .ok sorted) :
    sorted.Pairwise R ∧ sorted.Perm (waiting stack ++ xs) := by
  fun_induction Sorting.sortRuns lt n patience stack xs with
  | case1 patience stack =>
    obtain ⟨hsorted, hperm⟩ := hR.collapse (by simpa using hstack) h
    refine ⟨hsorted, hperm.trans (.of_eq ?_)⟩
    simp [waiting, List.flatMap]
  | case2 => simp at h
  | case3 => simp at h
  | case4 patience stack x rest run rest' hrun stack' patience' hpush ih =>
    obtain ⟨hlinked, hperm⟩ := hR.nextRun hrun
    obtain ⟨hstack', hpushed⟩ := hR.push hstack hlinked hpush
    obtain ⟨hsorted, hsortedPerm⟩ := ih hstack' h
    refine ⟨hsorted, hsortedPerm.trans ((hpushed.append_right rest').trans ?_)⟩
    rw [List.append_assoc]
    exact hperm.append_left _

/-- Sorting permutes a list, and all elements of a list that has been sorted are linked. -/
theorem Linking.sortStable (hR : Linking lt R) {falling : Bool} {xs sorted : List α}
    (h : sortStable lt falling xs = .ok sorted) : sorted.Perm xs ∧ xs.Pairwise R := by
  have hrising {ys sorted : List α} (hsort : sortRising lt ys = .ok sorted) :
      sorted.Perm ys ∧ ys.Pairwise R := by
    obtain ⟨hlinked, hperm⟩ := hR.sortRuns (by simp) hsort
    have hperm : sorted.Perm ys := by simpa [waiting] using hperm
    exact ⟨hperm, hR.perm hperm hlinked⟩
  rw [Sorting.sortStable] at h
  split at h
  · split at h
    · simp at h
    · next ys hys =>
      obtain rfl := Except.ok.inj h
      obtain ⟨hperm, hlinked⟩ := hrising hys
      exact ⟨(List.reverse_perm ys).trans (hperm.trans (List.reverse_perm xs)),
        hR.perm (List.reverse_perm xs) hlinked⟩
  · exact hrising h

end CallAudit.Sorting
