import CallAudit.Text.Printable

/-!
# Quoted text

Messages show names, keys and paths in quotes. Single quotes are used unless the text holds a single
quote and no double quote. The quote itself, the backslash and code points that are not printable
are escaped, so a quoted text is one line and shows every code point.
-/

namespace CallAudit.Text

/-- The escaped form of a code point inside the given quotes. -/
def quotedPoint (quote c : CodePoint) : Text :=
  if c = quote || c = CodePoint.ofChar '\\' then [CodePoint.ofChar '\\', c]
  else if c = CodePoint.ofChar '\n' then "\\n"
  else if c = CodePoint.ofChar '\r' then "\\r"
  else if c = CodePoint.ofChar '\t' then "\\t"
  else if isPrintable c then [c]
  else if c.val < 0x100 then "\\x" ++ hex 2 c.val
  else if c.val < 0x10000 then "\\u" ++ hex 4 c.val
  else "\\U" ++ hex 8 c.val

/-- The quote in which a text is shown. -/
def quoteFor (t : Text) : CodePoint :=
  if t.contains (CodePoint.ofChar '\'') && !t.contains (CodePoint.ofChar '"') then
    CodePoint.ofChar '"'
  else CodePoint.ofChar '\''

/-- The text in quotes. -/
def quoted (t : Text) : Text :=
  let q := quoteFor t
  q :: (t.flatMap (quotedPoint q) ++ [q])

/-- The escaped form of a byte inside the given quotes. -/
def quotedByte (quote : CodePoint) (b : UInt8) : Text :=
  let c := CodePoint.ofNat b.toNat
  if c = quote || c = CodePoint.ofChar '\\' then [CodePoint.ofChar '\\', c]
  else if c = CodePoint.ofChar '\n' then "\\n"
  else if c = CodePoint.ofChar '\r' then "\\r"
  else if c = CodePoint.ofChar '\t' then "\\t"
  else if 0x20 ≤ b && b < 0x7f then [c]
  else "\\x" ++ hex 2 b.toNat

/-- A byte sequence in quotes, marked by a leading `b`. -/
def quotedBytes (bs : List UInt8) : Text :=
  let q := quoteFor (bs.map fun b => CodePoint.ofNat b.toNat)
  CodePoint.ofChar 'b' :: q :: (bs.flatMap (quotedByte q) ++ [q])

end CallAudit.Text
