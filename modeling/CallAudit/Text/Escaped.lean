import CallAudit.Text.Basic

/-!
# Escaped text

Some code points cannot, or should not, be written as they are: control characters in a message that
repeats what was typed, and surrogates, which have no encoding. They are written as a backslash, a
letter and their number in hexadecimal digits. A backslash itself is left as it is.
-/

namespace CallAudit

/-- A control character. -/
def CodePoint.isControl (c : CodePoint) : Bool := c.val < 0x20 || (0x7f ≤ c.val && c.val < 0xa0)

namespace Text

/-- A text with its control characters escaped. -/
def controlsEscaped (t : Text) : Text :=
  t.flatMap fun c => if CodePoint.isControl c then "\\x" ++ hex 2 c.val else [c]

/-- A text with its surrogates escaped. -/
def surrogatesEscaped (t : Text) : Text :=
  t.flatMap fun c => if CodePoint.isSurrogate c then "\\u" ++ hex 4 c.val else [c]

end Text

end CallAudit
