import CallAudit.Sorting.Merge
import CallAudit.Sorting.Run

/-!
# Sorting by merging runs

A list is cut into runs from left to right. Runs wait on a stack, and two neighbours are merged as
soon as the boundary between them lies deeper than the one to the next run. The depth of a boundary
is the number of times that the whole list has to be halved until the middles of the two runs are
apart. In the end the runs that are left are merged, the smaller ones first.

Equal elements keep their order. A comparison may refuse two elements, and then the list is refused.
-/

namespace CallAudit.Sorting

variable {α ε : Type}

/-- A run that waits to be merged. -/
structure Pending (α : Type) where
  run : List α
  /-- The depth of the boundary to the run after it. -/
  depth : Nat

/-- How often the length `n` has to be halved until two places, given in halves of an element, lie
in different parts. -/
def separationDepth (n : Nat) : (fuel : Nat) → (a b : Nat) → Nat
  | 0, _, _ => 1
  | fuel + 1, a, b => if a / n = b / n then separationDepth n fuel (2 * a) (2 * b) + 1 else 1

/-- The depth of the boundary between a run that starts at `start` and the run after it, given by
their lengths, in a list with `n` elements. -/
def boundaryDepth (n start first second : Nat) : Nat :=
  separationDepth n n (2 * start + first) (2 * start + first + (first + second))

/-- Merges the runs on top of the stack whose boundary lies deeper than the given one. -/
def settle (lt : α → α → Except ε Bool) (depth : Nat) (patience : Nat) :
    List (Pending α) → Except ε (List (Pending α) × Nat)
  | [] => .ok ([], patience)
  | [top] => .ok ([top], patience)
  | top :: below :: rest =>
    if depth < below.depth then
      match merge lt patience below.run top.run with
      | .error e => .error e
      | .ok (run, patience') => settle lt depth patience' (⟨run, below.depth⟩ :: rest)
    else .ok (top :: below :: rest, patience)
termination_by stack => stack.length

/-- How many elements the runs of a stack hold. -/
def elementCount (stack : List (Pending α)) : Nat := stack.foldl (fun n p => n + p.run.length) 0

/-- Puts a run on top of the stack, in a list with `n` elements. -/
def push (lt : α → α → Except ε Bool) (n patience : Nat) (stack : List (Pending α)) (run : List α) :
    Except ε (List (Pending α) × Nat) :=
  match stack with
  | [] => .ok ([⟨run, 0⟩], patience)
  | top :: rest =>
    let depth := boundaryDepth n (elementCount rest) top.run.length run.length
    match settle lt depth patience (top :: rest) with
    | .error e => .error e
    | .ok ([], patience') => .ok ([⟨run, 0⟩], patience')
    | .ok (top' :: rest', patience') => .ok (⟨run, 0⟩ :: { top' with depth } :: rest', patience')

/-- Merges all runs of a stack. -/
def collapse (lt : α → α → Except ε Bool) (patience : Nat) : List (List α) → Except ε (List α)
  | [] => .ok []
  | [run] => .ok run
  | [third, second] =>
    match merge lt patience second third with
    | .error e => .error e
    | .ok (run, _) => .ok run
  | third :: second :: first :: rest =>
    if first.length < third.length then
      match merge lt patience first second with
      | .error e => .error e
      | .ok (run, patience') => collapse lt patience' (third :: run :: rest)
    else
      match merge lt patience second third with
      | .error e => .error e
      | .ok (run, patience') => collapse lt patience' (run :: first :: rest)
termination_by runs => runs.length

/-- Sorts the rest of a list with `n` elements, the runs before it being on the stack. -/
def sortRuns (lt : α → α → Except ε Bool) (n patience : Nat) (stack : List (Pending α))
    (xs : List α) : Except ε (List α) :=
  match xs with
  | [] => collapse lt patience (stack.map (·.run))
  | x :: rest =>
    match _h : nextRun lt (leastRun n false) (x :: rest) with
    | .error e => .error e
    | .ok (run, rest') =>
      match push lt n patience stack run with
      | .error e => .error e
      | .ok (stack', patience') => sortRuns lt n patience' stack' rest'
termination_by xs.length
decreasing_by exact nextRun_length _h

/-- Sorts a list into rising order. -/
def sortRising (lt : α → α → Except ε Bool) (xs : List α) : Except ε (List α) :=
  sortRuns lt xs.length worthwhile [] xs

/-- Sorts a list; in falling order, too, equal elements keep their order. -/
def sortStable (lt : α → α → Except ε Bool) (falling : Bool) (xs : List α) : Except ε (List α) :=
  if falling then
    match sortRising lt xs.reverse with
    | .error e => .error e
    | .ok ys => .ok ys.reverse
  else sortRising lt xs

end CallAudit.Sorting
