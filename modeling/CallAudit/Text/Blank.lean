import CallAudit.Text.Basic

/-!
# White space

Two classes of white space are in use. Settings and record lines are trimmed of every blank, which
includes the four information separators. A number given as text is trimmed of Unicode white space
only.
-/

namespace CallAudit.Text

/-- Unicode white space. -/
def isWhiteSpace (c : CodePoint) : Bool :=
  (9 ≤ c.val && c.val ≤ 13) || c.val == 0x20 || c.val == 0x85 || c.val == 0xa0 ||
  c.val == 0x1680 || (0x2000 ≤ c.val && c.val ≤ 0x200a) || c.val == 0x2028 || c.val == 0x2029 ||
  c.val == 0x202f || c.val == 0x205f || c.val == 0x3000

/-- White space or one of the information separators U+001C to U+001F. -/
def isBlank (c : CodePoint) : Bool := isWhiteSpace c || (0x1c ≤ c.val && c.val ≤ 0x1f)

/-- Drops the code points of a class from both ends. -/
def trimWhere (p : CodePoint → Bool) (t : Text) : Text :=
  ((t.dropWhile p).reverse.dropWhile p).reverse

/-- Drops blanks from both ends. -/
def trim (t : Text) : Text := trimWhere isBlank t

/-- Drops white space from both ends. -/
def trimWhiteSpace (t : Text) : Text := trimWhere isWhiteSpace t

end CallAudit.Text
