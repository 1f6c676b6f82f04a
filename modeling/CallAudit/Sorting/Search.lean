/-!
# Searching a run

A place in a run is found by halving an interval, or by striding away from a given place first and
then halving the interval that the last stride covers. Which elements are looked at is part of the
definition: a comparison may refuse two elements, and the first one that does decides.
-/

namespace CallAudit.Sorting

variable {α ε : Type}

/-- A test of the element at a place; there is nothing to be found behind the end. -/
def testAt (test : α → Except ε Bool) (run : List α) (i : Nat) : Except ε Bool :=
  match run[i]? with
  | some y => test y
  | none => .ok false

/-- The first place from `low` to `high` at which `before` fails, by halving. -/
def bisect (before : Nat → Except ε Bool) (low high : Nat) : Except ε Nat :=
  if low < high then
    let middle := low + (high - low) / 2
    match before middle with
    | .error e => .error e
    | .ok true => bisect before (middle + 1) high
    | .ok false => bisect before low middle
  else .ok low
termination_by high - low

/-- Strides of growing length, as long as `farther` holds and the bound is not reached; gives the
last two distances. -/
def stride (farther : Nat → Except ε Bool) (last step bound : Nat) : Except ε (Nat × Nat) :=
  if step < bound then
    match farther step with
    | .error e => .error e
    | .ok true => stride farther step (2 * step + 1) bound
    | .ok false => .ok (last, step)
  else .ok (last, bound)
termination_by bound - step

/-- The first place of a run at which `before` fails, searched by strides from the place `start`. -/
def gallop (before : α → Except ε Bool) (run : List α) (start : Nat) : Except ε Nat :=
  match testAt before run start with
  | .error e => .error e
  | .ok true =>
    match stride (fun k => testAt before run (start + k)) 0 1 (run.length - start) with
    | .error e => .error e
    | .ok (last, step) => bisect (testAt before run) (start + last + 1) (start + step)
  | .ok false =>
    match stride (fun k => (testAt before run (start - k)).map not) 0 1 (start + 1) with
    | .error e => .error e
    | .ok (last, step) => bisect (testAt before run) (start + 1 - step) (start - last)

end CallAudit.Sorting
