import CallAudit.Text.Basic

/-!
# Terminal control sequences

A control sequence is an escape and an opening bracket, then parameters and a letter. A text that is
not shown on a terminal is written without them.
-/

namespace CallAudit.Text

/-- The escape character. -/
def escape : CodePoint := CodePoint.ofNat 0x1b

/-- The bracket that introduces a control sequence, after an escape. -/
def introducer : CodePoint := CodePoint.ofChar '['

/-- A parameter of a control sequence: a digit, a semicolon or a question mark. -/
def isParameter (c : CodePoint) : Bool :=
  CodePoint.isDigit c || c = CodePoint.ofChar ';' || c = CodePoint.ofChar '?'

/-- A letter of the Latin alphabet, in either case. -/
def isLatinLetter (c : CodePoint) : Bool :=
  (0x41 ≤ c.val && c.val ≤ 0x5a) || (0x61 ≤ c.val && c.val ≤ 0x7a)

/-- What follows the parameters and the letter of a control sequence, if a text starts with them. -/
def afterSequence? : Text → Option Text
  | [] => none
  | c :: rest =>
    if isParameter c then afterSequence? rest else if isLatinLetter c then some rest else none

theorem afterSequence?_length {t r : Text} (h : afterSequence? t = some r) :
    r.length < t.length := by
  fun_induction afterSequence? t with
  | case1 => simp at h
  | case2 _ _ _ ih => have := ih h; simp only [List.length_cons]; omega
  | case3 => simp at h; simp [h]
  | case4 => simp at h

/-- A text without its control sequences. -/
def withoutSequences (t : Text) : Text :=
  match t with
  | [] => []
  | [c] => [c]
  | c :: d :: rest =>
    if c = escape && d = introducer then
      match _h : afterSequence? rest with
      | some rest' => withoutSequences rest'
      | none => c :: withoutSequences (d :: rest)
    else c :: withoutSequences (d :: rest)
termination_by t.length
decreasing_by
  · have := afterSequence?_length _h
    simp only [List.length_cons]
    omega
  · simp
  · simp

end CallAudit.Text
