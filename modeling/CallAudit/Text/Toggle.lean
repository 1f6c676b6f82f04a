import CallAudit.Text.Basic

/-!
# Sets of code points by their boundaries

A property of code points holds on finitely many intervals. Such a set is given by the ascending
list of the points where membership changes: the first is in the set, the second no longer, and so
on.
-/

namespace CallAudit.Text

/-- Whether a code point lies in the set with the given ascending boundaries. -/
def inToggled : List Nat → CodePoint → Bool
  | [], _ => false
  | lo :: rest, c => if c.val < lo then false else !inToggled rest c

end CallAudit.Text
