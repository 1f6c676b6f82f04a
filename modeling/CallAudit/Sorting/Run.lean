import CallAudit.Sorting.Search

/-!
# Runs

A run is a stretch of a list that is in order already. The leading run of a list is either rising,
or falling without equal neighbours, so that turning it round keeps equal elements in their order. A
short run is made longer by inserting the elements that follow it.
-/

namespace CallAudit.Sorting

variable {α ε : Type}

/-- How many of the following elements continue a run: each is below its predecessor, or each is
not, as `falling` says. -/
def runLength (lt : α → α → Except ε Bool) (falling : Bool) : α → List α → Except ε Nat
  | _, [] => .ok 0
  | last, x :: rest =>
    match lt x last with
    | .error e => .error e
    | .ok b =>
      if b = falling then
        match runLength lt falling x rest with
        | .error e => .error e
        | .ok n => .ok (n + 1)
      else .ok 0

/-- The leading run of a list, put into rising order, and the rest of the list. -/
def leadingRun (lt : α → α → Except ε Bool) : List α → Except ε (List α × List α)
  | [] => .ok ([], [])
  | [x] => .ok ([x], [])
  | x :: y :: rest =>
    match lt y x with
    | .error e => .error e
    | .ok falling =>
      match runLength lt falling y rest with
      | .error e => .error e
      | .ok n =>
        let run := x :: y :: rest.take n
        .ok (if falling then run.reverse else run, rest.drop n)

/-- Inserts the elements of a list, one after another, into a run: each goes behind all elements
that it is not below. -/
def insertAll (lt : α → α → Except ε Bool) : (run : List α) → List α → Except ε (List α)
  | run, [] => .ok run
  | run, x :: rest =>
    match bisect (testAt (fun y => (lt x y).map not) run) 0 run.length with
    | .error e => .error e
    | .ok place => insertAll lt (run.take place ++ x :: run.drop place) rest

/-- The first run of a list and the rest of the list. It has at least the given length, unless the
list is shorter. -/
def nextRun (lt : α → α → Except ε Bool) (least : Nat) (xs : List α) :
    Except ε (List α × List α) :=
  match leadingRun lt xs with
  | .error e => .error e
  | .ok (run, rest) =>
    match insertAll lt run (rest.take (least - run.length)) with
    | .error e => .error e
    | .ok run' => .ok (run', rest.drop (least - run.length))

theorem leadingRun_length {lt : α → α → Except ε Bool} {x : α} {xs run rest : List α}
    (h : leadingRun lt (x :: xs) = .ok (run, rest)) : rest.length < (x :: xs).length := by
  match xs with
  | [] => simp [leadingRun] at h; simp [← h.2]
  | y :: ys =>
    rw [leadingRun] at h
    split at h
    · simp at h
    · split at h
      · simp at h
      · simp only [Except.ok.injEq, Prod.mk.injEq] at h
        simp only [← h.2, List.length_drop, List.length_cons]
        omega

theorem nextRun_length {lt : α → α → Except ε Bool} {least : Nat} {x : α} {xs run rest : List α}
    (h : nextRun lt least (x :: xs) = .ok (run, rest)) : rest.length < (x :: xs).length := by
  unfold nextRun at h
  split at h
  · simp at h
  · rename_i run₀ rest₀ hrun
    have := leadingRun_length hrun
    split at h
    · simp at h
    · simp only [Except.ok.injEq, Prod.mk.injEq] at h
      simp only [← h.2, List.length_drop]
      omega

/-- The least length of the runs of a list with `n` elements: `n` halved, and rounded up once, until
it is below 64. -/
def leastRun (n : Nat) (roundUp : Bool) : Nat :=
  if 64 ≤ n then leastRun (n / 2) (roundUp || n % 2 == 1)
  else if roundUp then n + 1 else n
termination_by n

end CallAudit.Sorting
