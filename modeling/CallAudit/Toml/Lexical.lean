import CallAudit.Text.Basic

/-!
# Blanks, comments, strings and keys of TOML

Every reader takes the text from its own start on and gives what it has read together with the text
that follows. Control characters are refused everywhere but for tabs, and for line ends where a
string may span lines.
-/

namespace CallAudit.Toml

/-- Space and tab. -/
def isBlank (c : CodePoint) : Bool := c.val == 0x20 || c.val == 9

/-- The end of a line. -/
def isLineEnd (c : CodePoint) : Bool := c.val == 10

/-- A control character other than tab. -/
def isControl (c : CodePoint) : Bool := (c.val < 0x20 && c.val != 9) || c.val == 0x7f

/-- The text after leading blanks. -/
def skipBlanks (t : Text) : Text := t.dropWhile isBlank

/-- The text after a comment, if there is one: a comment ends before the end of its line. -/
def skipComment (t : Text) : Option Text :=
  match t with
  | c :: rest =>
    if c.val = 0x23 then
      if (rest.takeWhile fun c => !isLineEnd c).any isControl then none
      else some (rest.dropWhile fun c => !isLineEnd c)
    else some t
  | [] => some []

/-- The text after blanks, line ends and comments. -/
def skipLines : (inComment : Bool) → Text → Option Text
  | _, [] => some []
  | true, c :: rest =>
    if isLineEnd c then skipLines false rest
    else if isControl c then none
    else skipLines true rest
  | false, c :: rest =>
    if isBlank c || isLineEnd c then skipLines false rest
    else if c.val = 0x23 then skipLines true rest
    else some (c :: rest)

/-! ## Literal strings -/

/-- The apostrophe. -/
def apostrophe : CodePoint := CodePoint.ofNat 0x27

/-- The quotation mark. -/
def quote : CodePoint := CodePoint.ofNat 0x22

/-- Reads a literal string after its opening apostrophe. -/
def readLiteral (t : Text) : Option (Text × Text) :=
  let s := t.takeWhile (· != apostrophe)
  match t.drop s.length with
  | _ :: rest => if s.any isControl then none else some (s, rest)
  | [] => none

/-- The text before the first three apostrophes in a row, and the text after them. -/
def untilTriple : Text → Option (Text × Text)
  | a :: b :: c :: rest =>
    if a = apostrophe && b = apostrophe && c = apostrophe then some ([], rest)
    else (untilTriple (b :: c :: rest)).map fun (s, r) => (a :: s, r)
  | _ => none

/-- Up to two more closing characters, which belong to the string. -/
def extraClosing (mark : CodePoint) (s t : Text) : Text × Text :=
  match t with
  | a :: rest =>
    if a = mark then
      match rest with
      | b :: rest' => if b = mark then (s ++ [mark, mark], rest') else (s ++ [mark], rest)
      | [] => (s ++ [mark], [])
    else (s, t)
  | [] => (s, [])

/-- The text after a line end that directly follows the opening of a string. -/
def skipFirstLineEnd (t : Text) : Text :=
  match t with
  | c :: rest => if isLineEnd c then rest else t
  | [] => []

/-- Reads a literal string of several lines after its opening. -/
def readLiteralLines (t : Text) : Option (Text × Text) :=
  match untilTriple (skipFirstLineEnd t) with
  | some (s, rest) =>
    if s.any fun c => isControl c && !isLineEnd c then none
      else some (extraClosing apostrophe s rest)
  | none => none

/-! ## Basic strings -/

/-- What a one-letter escape stands for. -/
def escaped? (c : CodePoint) : Option CodePoint :=
  match c.toChar? with
  | some 'b' => some (CodePoint.ofNat 8)
  | some 't' => some (CodePoint.ofNat 9)
  | some 'n' => some (CodePoint.ofNat 10)
  | some 'f' => some (CodePoint.ofNat 12)
  | some 'r' => some (CodePoint.ofNat 13)
  | some '"' => some quote
  | some '\\' => some (CodePoint.ofNat 0x5c)
  | _ => none

/-- The number written by hexadecimal digits. -/
def hexValue? (ds : List CodePoint) : Option Nat :=
  ds.foldl (fun n d => n.bind fun n => (CodePoint.hexDigit? d).map (16 * n + ·)) (some 0)

/-- The character written by hexadecimal digits; a surrogate is none. -/
def hexChar? (ds : List CodePoint) : Option CodePoint :=
  (hexValue? ds).bind fun n =>
    if n < 0x110000 && !CodePoint.isSurrogate (CodePoint.ofNat n) then some (CodePoint.ofNat n)
      else none

/-- What is left out at the current place of a string of several lines. -/
inductive Omitted
  | nothing
  /-- Blanks up to the end of the line, which has to come. -/
  | restOfLine
  /-- Blanks and line ends. -/
  | blankLines
deriving DecidableEq

/-- Puts a character in front of what is read. -/
def prepend (c : CodePoint) (r : Option (Text × Text)) : Option (Text × Text) :=
  r.map fun (s, rest) => (c :: s, rest)

/-- Reads a basic string after its opening. A string of several lines ends at three quotation marks
and may be broken by a backslash at the end of a line. -/
def readBasic (lines : Bool) : Omitted → Text → Option (Text × Text)
  | _, [] => none
  | omitted, c :: rest =>
    -- after a backslash and blanks, only the end of the line may come
    if omitted = .restOfLine then
      if isBlank c then readBasic lines .restOfLine rest
      else if isLineEnd c then readBasic lines .blankLines rest
      else none
    else if omitted = .blankLines && (isBlank c || isLineEnd c) then
      readBasic lines .blankLines rest
    else if c = quote then
      if lines then
        match rest with
        | a :: b :: rest' =>
          -- one or two quotation marks do not end a string of several lines
          if a = quote && b = quote then some ([], rest')
            else prepend c (readBasic lines .nothing rest)
        | _ => none
      else some ([], rest)
    -- a backslash
    else if c.val = 0x5c then
      match rest with
      | [] => none
      | e :: rest =>
        if lines && isLineEnd e then readBasic lines .blankLines rest
        else if lines && isBlank e then readBasic lines .restOfLine rest
        -- `u` with four digits, `U` with eight
        else if e.val = 0x75 then
          match rest with
          | a :: b :: c :: d :: rest =>
            match hexChar? [a, b, c, d] with
            | some x => prepend x (readBasic lines .nothing rest)
            | none => none
          | _ => none
        else if e.val = 0x55 then
          match rest with
          | a :: b :: c :: d :: e :: f :: g :: h :: rest =>
            match hexChar? [a, b, c, d, e, f, g, h] with
            | some x => prepend x (readBasic lines .nothing rest)
            | none => none
          | _ => none
        else
          match escaped? e with
          | some x => prepend x (readBasic lines .nothing rest)
          | none => none
    else if isControl c && !(lines && isLineEnd c) then none
    else prepend c (readBasic lines .nothing rest)

/-- Reads a basic string of several lines after its opening. -/
def readBasicLines (t : Text) : Option (Text × Text) :=
  (readBasic true .nothing (skipFirstLineEnd t)).map fun (s, rest) => extraClosing quote s rest

/-- Reads a string of either kind. -/
def readString (t : Text) : Option (Text × Text) :=
  match t with
  | a :: b :: c :: rest =>
    if a = quote then
      if b = quote && c = quote then readBasicLines rest
        else readBasic false .nothing (b :: c :: rest)
    else if a = apostrophe then
      if b = apostrophe && c = apostrophe then readLiteralLines rest
        else readLiteral (b :: c :: rest)
    else none
  | a :: rest =>
    if a = quote then readBasic false .nothing rest
    else if a = apostrophe then readLiteral rest
    else none
  | [] => none

/-! ## Keys -/

/-- The characters of a bare key. -/
def isBare (c : CodePoint) : Bool :=
  c.isDigit || (65 ≤ c.val && c.val ≤ 90) || (97 ≤ c.val && c.val ≤ 122) || c.val == 0x2d ||
    c.val == 0x5f

/-- Whether a key may start with a character. -/
def startsKey (c : CodePoint) : Bool := isBare c || c = quote || c = apostrophe

/-- Reads one part of a key. -/
def readKeyPart (t : Text) : Option (Text × Text) :=
  match t with
  | c :: rest =>
    if isBare c then some (t.takeWhile isBare, t.dropWhile isBare)
    else if c = quote then readBasic false .nothing rest
    else if c = apostrophe then readLiteral rest
    else none
  | [] => none

/-- Reads the parts of a key with dots between them; at most as many as there are characters. -/
def readKeyParts : (budget : Nat) → Text → Option (List Text × Text)
  | 0, _ => none
  | budget + 1, t =>
    match readKeyPart t with
    | none => none
    | some (part, rest) =>
      match skipBlanks rest with
      | c :: rest' =>
        -- blanks may stand on both sides of a dot
        if c.val = 0x2e then (readKeyParts budget (skipBlanks rest')).map fun (parts, r) =>
          (part :: parts, r)
        else some ([part], c :: rest')
      | [] => some ([part], [])

/-- Reads a key and the blanks after it. -/
def readKey (t : Text) : Option (List Text × Text) := readKeyParts t.length t

end CallAudit.Toml
