import CallAudit.Sorting.Search

/-!
# Merging two runs

Two neighbouring runs are merged from the front or from the back, whichever end the shorter of them
is at. Elements are taken one by one; once a run has won often enough in a row, whole stretches are
taken, whose ends are searched by strides. How often is enough adapts to how well this goes. Merging
stops when one run has nothing left, or when the shorter one has a single element left, which is
known to come last.
-/

namespace CallAudit.Sorting

variable {α ε : Type}

/-- The end that two runs are merged from. -/
inductive Side
  | front
  | back
deriving DecidableEq

/-- Two runs that are being merged. They, and what has been taken, are given from the end that they
are merged from. -/
structure Merging (α : Type) where
  left : List α
  right : List α
  /-- What has been taken, the last one first. -/
  taken : List α

namespace Merging

variable (m : Merging α)

/-- Takes elements of the left run. -/
def takeLeft (n : Nat) : Merging α :=
  { m with left := m.left.drop n, taken := (m.left.take n).reverse ++ m.taken }

/-- Takes elements of the right run. -/
def takeRight (n : Nat) : Merging α :=
  { m with right := m.right.drop n, taken := (m.right.take n).reverse ++ m.taken }

/-- How many elements have not been taken. -/
def size : Nat := m.left.length + m.right.length

/-- Whether a list has at most one element. -/
def isSingle : List α → Bool
  | _ :: _ :: _ => false
  | _ => true

/-- Whether the order of what has not been taken is known. -/
def isDone : Side → Bool
  | .front => isSingle m.left || m.right.isEmpty
  | .back => isSingle m.right || m.left.isEmpty

/-- All elements in rising order, once merging is done. -/
def finish : Side → List α
  | .front => m.taken.reverse ++ (m.right ++ m.left)
  | .back => (m.left ++ m.right).reverse ++ m.taken

/-- Takes one element from the run that it comes from next; tells whether this is the right one. -/
def takeOne (lt : α → α → Except ε Bool) (side : Side) : Except ε (Merging α × Bool) :=
  match m.left, m.right with
  | x :: _, y :: _ =>
    match lt y x with
    | .error e => .error e
    | .ok below =>
      -- of equal elements the left one comes first, so from the back the right one is taken
      if below = decide (side = .front) then .ok (m.takeRight 1, true)
        else .ok (m.takeLeft 1, false)
  | _, [] => .ok (m.takeLeft 1, false)
  | [], _ => .ok (m.takeRight 1, true)

end Merging

/-- How many elements at the given end of a run come before the place at which `before` fails, or,
at the back, from this place on. -/
def stretch (side : Side) (before : α → Except ε Bool) (run : List α) : Except ε Nat :=
  match side with
  | .front => gallop before run 0
  | .back => (gallop before run.reverse (run.length - 1)).map (run.length - ·)

/-- What a round of taking stretches leads to. -/
structure Round (α : Type) where
  merging : Merging α
  fromLeft : Nat
  fromRight : Nat

namespace Merging

variable (m : Merging α)

/-- The second half of a round: a stretch of the right run, up to the next element of the left run,
and this element. -/
def roundRight (lt : α → α → Except ε Bool) (side : Side) (fromLeft : Nat) : Except ε (Round α) :=
  match m.left with
  | [] => .ok ⟨m, fromLeft, 0⟩
  | x :: _ =>
    match stretch side (fun y => lt y x) m.right with
    | .error e => .error e
    | .ok k =>
      let m' := m.takeRight k
      .ok ⟨if m'.isDone side then m' else m'.takeLeft 1, fromLeft, k⟩

/-- A round: a stretch of the left run, up to the next element of the right run, and this element;
then the same with the runs exchanged. -/
def round (lt : α → α → Except ε Bool) (side : Side) : Except ε (Round α) :=
  match m.right with
  | [] => .ok ⟨m, 0, 0⟩
  | y :: _ =>
    match stretch side (fun x => (lt y x).map not) m.left with
    | .error e => .error e
    | .ok k =>
      let m₁ := m.takeLeft k
      if m₁.isDone side then .ok ⟨m₁, k, 0⟩
      else
        let m₂ := m₁.takeRight 1
        if m₂.isDone side then .ok ⟨m₂, k, 0⟩ else m₂.roundRight lt side k

end Merging

/-! ## Every step takes something -/

namespace Merging

theorem size_takeLeft_le (m : Merging α) (n : Nat) : (m.takeLeft n).size ≤ m.size := by
  simp [size, takeLeft]

theorem size_takeRight_le (m : Merging α) (n : Nat) : (m.takeRight n).size ≤ m.size := by
  simp [size, takeRight]

theorem left_ne_nil {m : Merging α} {side : Side} (h : m.isDone side = false) : m.left ≠ [] := by
  cases side <;> cases hl : m.left <;> simp_all [isDone, isSingle]

theorem right_ne_nil {m : Merging α} {side : Side} (h : m.isDone side = false) : m.right ≠ [] := by
  cases side <;> cases hr : m.right <;> simp_all [isDone, isSingle]

theorem size_takeLeft_one_lt {m : Merging α} (h : m.left ≠ []) : (m.takeLeft 1).size < m.size := by
  cases hl : m.left with
  | nil => exact absurd hl h
  | cons => simp [size, takeLeft, hl]

theorem size_takeRight_one_lt {m : Merging α} (h : m.right ≠ []) :
    (m.takeRight 1).size < m.size := by
  cases hr : m.right with
  | nil => exact absurd hr h
  | cons => simp [size, takeRight, hr]

theorem size_takeOne_lt {lt : α → α → Except ε Bool} {side : Side} {m m' : Merging α} {b : Bool}
    (hm : m.isDone side = false) (h : m.takeOne lt side = .ok (m', b)) : m'.size < m.size := by
  have hl := size_takeLeft_one_lt (left_ne_nil hm)
  have hr := size_takeRight_one_lt (right_ne_nil hm)
  unfold takeOne at h
  split at h
  · split at h
    · simp at h
    · split at h <;> simp only [Except.ok.injEq, Prod.mk.injEq] at h <;> rw [← h.1] <;> assumption
  · simp only [Except.ok.injEq, Prod.mk.injEq] at h; rw [← h.1]; assumption
  · simp only [Except.ok.injEq, Prod.mk.injEq] at h; rw [← h.1]; assumption

theorem size_roundRight_le {lt : α → α → Except ε Bool} {side : Side} {m : Merging α} {k : Nat}
    {r : Round α} (h : m.roundRight lt side k = .ok r) : r.merging.size ≤ m.size := by
  unfold roundRight at h
  split at h
  · simp only [Except.ok.injEq] at h; subst h; exact Nat.le_refl _
  · split at h
    · simp at h
    · simp only [Except.ok.injEq] at h
      subst h
      split
      · exact size_takeRight_le _ _
      · exact Nat.le_trans (size_takeLeft_le _ _) (size_takeRight_le _ _)

theorem size_round_lt {lt : α → α → Except ε Bool} {side : Side} {m : Merging α} {r : Round α}
    (h : m.round lt side = .ok r) (hr : r.merging.isDone side = false) :
    r.merging.size < m.size := by
  unfold round at h
  split at h
  · rename_i hright
    simp only [Except.ok.injEq] at h
    exact absurd hright (by rw [← h] at hr; exact right_ne_nil hr)
  · split at h
    · simp at h
    · rename_i k _
      simp only at h
      split at h
      · rename_i hdone
        simp only [Except.ok.injEq] at h
        rw [← h] at hr
        simp [hdone] at hr
      · rename_i hdone
        have h₁ := size_takeLeft_le m k
        have h₂ := size_takeRight_one_lt (right_ne_nil (Bool.not_eq_true _ ▸ hdone))
        split at h
        · rename_i hdone'
          simp only [Except.ok.injEq] at h
          rw [← h] at hr
          simp [hdone'] at hr
        · have h₃ := size_roundRight_le h
          omega

end Merging

/-! ## Merging -/

/-- How elements are taken at present. -/
inductive Pace
  /-- One by one, with how often each run has won in a row. -/
  | single (leftWins rightWins : Nat)
  /-- In stretches. -/
  | stretches

/-- The length from which on a stretch pays off. -/
def worthwhile : Nat := 7

/-- Merges what is left of two runs. After `patience` wins in a row stretches are taken. The
patience shrinks as long as this pays off and grows when it no longer does; it is given back with
the merged list. -/
def Merging.complete (lt : α → α → Except ε Bool) (side : Side) (pace : Pace) (patience : Nat)
    (m : Merging α) : Except ε (List α × Nat) :=
  if _hm : m.isDone side then .ok (m.finish side, patience)
  else
    match pace with
    | .single leftWins rightWins =>
      match _h : m.takeOne lt side with
      | .error e => .error e
      | .ok (m', true) =>
        m'.complete lt side
          (if patience ≤ rightWins + 1 then .stretches else .single 0 (rightWins + 1)) patience
      | .ok (m', false) =>
        m'.complete lt side
          (if patience ≤ leftWins + 1 then .stretches else .single (leftWins + 1) 0) patience
    | .stretches =>
      match _h : m.round lt side with
      | .error e => .error e
      | .ok r =>
        if _hr : r.merging.isDone side then .ok (r.merging.finish side, patience)
        else if worthwhile ≤ r.fromLeft || worthwhile ≤ r.fromRight then
          r.merging.complete lt side .stretches (max 1 (patience - 1))
        else r.merging.complete lt side (.single 0 0) (patience + 1)
termination_by m.size
decreasing_by
  · exact Merging.size_takeOne_lt (Bool.not_eq_true _ ▸ _hm) _h
  · exact Merging.size_takeOne_lt (Bool.not_eq_true _ ▸ _hm) _h
  · exact Merging.size_round_lt _h (Bool.not_eq_true _ ▸ _hr)
  · exact Merging.size_round_lt _h (Bool.not_eq_true _ ▸ _hr)

/-- Merges two runs of which each starts with an element to be moved past: the first element of the
right run is below all of the left, and the last one of the left run is above all of the right. -/
def mergeOverlap (lt : α → α → Except ε Bool) (patience : Nat) (left right : List α) :
    Except ε (List α × Nat) :=
  if left.length ≤ right.length then
    (Merging.takeRight ⟨left, right, []⟩ 1).complete lt .front (.single 0 0) patience
  else
    (Merging.takeLeft ⟨left.reverse, right.reverse, []⟩ 1).complete lt .back (.single 0 0) patience

/-- Merges two neighbouring runs. What comes first in the left run and what comes last in the right
run stays where it is. -/
def merge (lt : α → α → Except ε Bool) (patience : Nat) (left right : List α) :
    Except ε (List α × Nat) :=
  match right with
  | [] => .ok (left, patience)
  | y :: _ =>
    -- what is not above the first element of the right run stays in front
    match gallop (fun x => (lt y x).map not) left 0 with
    | .error e => .error e
    | .ok settled =>
      match (left.drop settled).getLast? with
      | none => .ok (left ++ right, patience)
      | some x =>
        -- what is not below the last element of the left run stays at the end
        match gallop (fun z => lt z x) right (right.length - 1) with
        | .error e => .error e
        | .ok 0 => .ok (left ++ right, patience)
        | .ok moving =>
          match mergeOverlap lt patience (left.drop settled) (right.take moving) with
          | .error e => .error e
          | .ok (merged, patience') =>
            .ok (left.take settled ++ merged ++ right.drop moving, patience')

end CallAudit.Sorting
