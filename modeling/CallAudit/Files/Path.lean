import CallAudit.Text.Quoted

/-!
# Paths

A path is a sequence of parts, relative to the working directory unless it starts at a root. Empty
parts and parts that name the current directory are left out; a part that names the parent directory
is kept. Exactly two leading slashes are a root of their own.
-/

namespace CallAudit

/-- Where a path starts. -/
inductive PathRoot
  | relative
  | root
  | doubleRoot
deriving DecidableEq

/-- A path in normal form. -/
structure Path where
  start : PathRoot
  parts : List Text
deriving DecidableEq

namespace Path

/-- The separator of parts. -/
def slash : CodePoint := CodePoint.ofChar '/'

/-- Where a written path starts. -/
def rootOf (t : Text) : PathRoot :=
  match t with
  | a :: b :: c :: _ =>
    if a ≠ slash then .relative else if b = slash && c ≠ slash then .doubleRoot else .root
  | [a, b] => if a ≠ slash then .relative else if b = slash then .doubleRoot else .root
  | [a] => if a = slash then .root else .relative
  | [] => .relative

/-- The path of a text. -/
def ofText (t : Text) : Path :=
  { start := rootOf t
    parts := (Text.splitOn slash t).filter fun p => !p.isEmpty && p != [CodePoint.ofChar '.'] }

/-- The parts of a path with slashes between them. -/
def joined (p : Path) : Text := Text.join [slash] p.parts

/-- A path as a text; the working directory is a dot. -/
def text (p : Path) : Text :=
  match p.start with
  | .relative => if p.parts.isEmpty then "." else p.joined
  | .root => slash :: p.joined
  | .doubleRoot => slash :: slash :: p.joined

/-- Whether a path starts at a root. -/
def isAbsolute (p : Path) : Bool := p.start != .relative

/-- A path taken relative to a directory, unless it starts at a root. -/
def join (directory p : Path) : Path :=
  if p.isAbsolute then p else { directory with parts := directory.parts ++ p.parts }

/-- An entry of a directory. -/
def child (directory : Path) (name : Text) : Path :=
  { directory with parts := directory.parts ++ [name] }

/-- The directory of a path. -/
def parent (p : Path) : Path := { p with parts := p.parts.dropLast }

/-- The last part of a path. -/
def name (p : Path) : Text := p.parts.getLast?.getD []

end Path

end CallAudit
