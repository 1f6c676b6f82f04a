import CallAudit.Text.Basic

/-!
# Close words

Two words are close when they have much in common: the longest common run of characters, and to the
left and right of it again the longest common runs. A word that is not known is answered with up to
three known ones that are close to it.
-/

namespace CallAudit.Closeness

/-- How many characters two words have in common at their start. -/
def commonStart : Text → Text → Nat
  | a :: as, b :: bs => if a = b then commonStart as bs + 1 else 0
  | _, _ => 0

/-- A common run: where it starts in either word, and its length. -/
structure Run where
  left : Nat
  right : Nat
  length : Nat

/-- The longest common run of two words; of several, the leftmost one. -/
def longestRun (a b : Text) : Run :=
  (List.range a.length).foldl (fun best i =>
    (List.range b.length).foldl (fun best j =>
      let n := commonStart (a.drop i) (b.drop j)
      if best.length < n then { left := i, right := j, length := n } else best) best) ⟨0, 0, 0⟩

/-- The number of characters in common runs. Every run takes a character, which the budget
counts. -/
def common : (budget : Nat) → Text → Text → Nat
  | 0, _, _ => 0
  | budget + 1, a, b =>
    let r := longestRun a b
    if r.length = 0 then 0
    else
      common budget (a.take r.left) (b.take r.right) + r.length +
        common budget (a.drop (r.left + r.length)) (b.drop (r.right + r.length))

/-- Twice the number of common characters, and the number of all characters: the quotient is the
closeness of the words. -/
def ratio (a b : Text) : Nat × Nat := (2 * common a.length a b, a.length + b.length)

/-- Words are close from a quotient of three fifths on. -/
def isClose (r : Nat × Nat) : Bool := 3 * r.2 ≤ 5 * r.1

/-- Whether the first word, with its closeness, is suggested before the second. -/
def before (x y : (Nat × Nat) × Text) : Bool :=
  let a := x.1.1 * y.1.2
  let b := y.1.1 * x.1.2
  if a = b then Text.le y.2 x.2 else b < a

/-- The known words that are close to a word, the closest first. -/
def suggestions (word : Text) (known : List Text) : List Text :=
  ((((known.map fun k => (ratio k word, k)).filter fun (r, _) => isClose r).mergeSort
    before).take 3).map (·.2)

end CallAudit.Closeness
