import CallAudit.Json.Basic

/-!
# Writing JSON

Two layouts are in use. The compact one has no white space, the pretty one puts every item on a line
of its own, indented by two spaces for each level. A string is written either with every code point
outside printable ASCII escaped, or with only those escaped that may not stand in a string.
-/

namespace CallAudit.Json

/-- How strings are written. -/
inductive StringStyle
  /-- Everything outside printable ASCII is escaped, beyond U+FFFF as a surrogate pair. -/
  | ascii
  /-- Only quotes, backslashes and control characters are escaped. -/
  | raw
deriving DecidableEq

/-- A code unit as an escape. -/
def unitEscape (n : Nat) : Text := "\\u" ++ Text.hex 4 n

/-- A code point inside a string. -/
def stringPoint (style : StringStyle) (c : CodePoint) : Text :=
  match c.val with
  | 0x22 => "\\\""
  | 0x5c => "\\\\"
  | 0x08 => "\\b"
  | 0x09 => "\\t"
  | 0x0a => "\\n"
  | 0x0c => "\\f"
  | 0x0d => "\\r"
  | n =>
    if n < 0x20 then unitEscape n
    else if n < 0x7f || style = .raw then [c]
    else if n < 0x10000 then unitEscape n
    else unitEscape (0xD800 + (n - 0x10000) / 0x400) ++ unitEscape (0xDC00 + (n - 0x10000) % 0x400)

/-- A string in quotes. -/
def stringText (style : StringStyle) (t : Text) : Text :=
  "\"" ++ t.flatMap (stringPoint style) ++ "\""

/-- A floating-point number; what is not finite is written as `NaN` or `Infinity`. -/
def floatText (x : Binary64) : Text := x.text "Infinity" "NaN"

/-- A truth value. -/
def boolText (b : Bool) : Text := if b then "true" else "false"

mutual

/-- A value without white space. -/
def compact (style : StringStyle) : Json → Text
  | .null => "null"
  | .bool b => boolText b
  | .int i => Text.ofInt i
  | .float x => floatText x
  | .str t => stringText style t
  | .arr items => "[" ++ Text.join "," (compactItems style items) ++ "]"
  | .obj fields => "\x7b" ++ Text.join "," (compactFields style fields) ++ "\x7d"
termination_by structural v => v

/-- The items of an array, each without white space. -/
def compactItems (style : StringStyle) : List Json → List Text
  | [] => []
  | v :: rest => compact style v :: compactItems style rest
termination_by structural items => items

/-- The fields of an object, each without white space. -/
def compactFields (style : StringStyle) : List (Text × Json) → List Text
  | [] => []
  | field :: rest => compactField style field :: compactFields style rest
termination_by structural fields => fields

/-- A field without white space. -/
def compactField (style : StringStyle) : Text × Json → Text
  | (name, v) => stringText style name ++ ":" ++ compact style v
termination_by structural field => field

end

/-- The line break before an item inside `depth` containers. -/
def newline (depth : Nat) : Text := "\n" ++ List.replicate (2 * depth) (CodePoint.ofChar ' ')

/-- Items on lines of their own between brackets, inside `depth` containers. -/
def bracketed (opening closing : Text) (depth : Nat) (items : List Text) : Text :=
  if items.isEmpty then opening ++ closing
  else
    opening ++ newline (depth + 1) ++ Text.join ("," ++ newline (depth + 1)) items ++
      newline depth ++ closing

mutual

/-- A value whose items stand on lines of their own, inside `depth` containers. -/
def prettyAt (depth : Nat) : Json → Text
  | .null => "null"
  | .bool b => boolText b
  | .int i => Text.ofInt i
  | .float x => floatText x
  | .str t => stringText .ascii t
  | .arr items => bracketed "[" "]" depth (prettyItems (depth + 1) items)
  | .obj fields => bracketed "\x7b" "\x7d" depth (prettyFields (depth + 1) fields)
termination_by structural v => v

/-- The items of an array inside `depth` containers. -/
def prettyItems (depth : Nat) : List Json → List Text
  | [] => []
  | v :: rest => prettyAt depth v :: prettyItems depth rest
termination_by structural items => items

/-- The fields of an object inside `depth` containers. -/
def prettyFields (depth : Nat) : List (Text × Json) → List Text
  | [] => []
  | field :: rest => prettyField depth field :: prettyFields depth rest
termination_by structural fields => fields

/-- A field inside `depth` containers. -/
def prettyField (depth : Nat) : Text × Json → Text
  | (name, v) => stringText .ascii name ++ ": " ++ prettyAt depth v
termination_by structural field => field

end

/-- The pretty layout of a value. -/
def pretty (v : Json) : Text := prettyAt 0 v

end CallAudit.Json
