import CallAudit.Depstore.Database
import CallAudit.Depstore.Image
import CallAudit.Files.Limits

/-!
# File trees

The files and directories that the library works on, as a value: a tree maps places to directories
and files. Every operation on a path first follows its parts, so that a missing directory or a file
in the way shows as the fault that the path as a whole has.
-/

namespace CallAudit

/-- The content of a file. A table comes with the number of changes it has seen. -/
inductive FileContent
  | bytes (b : List UInt8)
  | table (t : Table) (changes : Nat)
deriving DecidableEq

/-- The content of a file with the given bytes; a table is recognised by its name and its layout. -/
def FileContent.ofBytes (p : Path) (bytes : List UInt8) : FileContent :=
  if p.name ≠ Text.ofString "db" then .bytes bytes
  else
    match Database.ofBytes? bytes with
    | none => .bytes bytes
    | some database => (database.table?.map fun t => .table t database.changes).getD (.bytes bytes)

/-- What is at a place. -/
inductive FileNode
  | directory
  | file (content : FileContent)
deriving DecidableEq

/-- A place: the names of the directories on the way and the last name. The working directory is the
empty place; the directories above it are made of double dots, and places below a root start with a
slash. -/
abbrev Place := List Text

/-- A file tree. The working directory, the directories above it and the root are always there. -/
structure FileTree where
  nodes : List (Place × FileNode) := []

/-- Why an operation on a path fails. -/
inductive FileProblem
  | noSuchFile
  | exists
  | notDirectory
  | isDirectory
  /-- The path, or a name in it, has too many bytes. -/
  | tooLong
  /-- The path cannot be handed to the file system. -/
  | name (fault : Text.SystemFault)
deriving DecidableEq

/-- A failed operation on a path. -/
structure FileFault where
  problem : FileProblem
  path : Path
deriving DecidableEq

/-- The wording of a problem. -/
def FileProblem.message : FileProblem → Text
  | .noSuchFile => "[Errno 2] No such file or directory"
  | .exists => "[Errno 17] File exists"
  | .notDirectory => "[Errno 20] Not a directory"
  | .isDirectory => "[Errno 21] Is a directory"
  | .tooLong => "[Errno 36] File name too long"
  | .name fault => fault.message

/-- Whether it is the file system that refuses an operation. -/
def FileProblem.isSystem : FileProblem → Bool
  | .name _ => false
  | _ => true

/-- The message for a failed operation. -/
def FileFault.message (f : FileFault) : Text :=
  if f.problem.isSystem then f.problem.message ++ ": " ++ Text.quoted f.path.text
    else f.problem.message

namespace FileTree

/-- The place where roots lie. -/
def rootPlace : Place := [[Path.slash]]

/-- The part that leads to the parent directory. -/
def upward : Text := ".."

/-- Whether a place is the working directory or one above it. -/
def isAbove (p : Place) : Bool := p.all (· == upward)

/-- What is at a place. -/
def node? (t : FileTree) (p : Place) : Option FileNode :=
  if isAbove p || p = rootPlace then some .directory else t.nodes.lookup p

/-- The directory that a place lies in; the root lies in itself. -/
def outer (p : Place) : Place :=
  if p = rootPlace then p else if isAbove p then p ++ [upward] else p.dropLast

/-- The place that the remaining parts of a path lead to. All but the last have to lead to
directories. -/
def follow (t : FileTree) : Place → List Text → Except FileProblem Place
  | place, [] => .ok place
  | place, part :: rest =>
    match t.node? place with
    | none => .error .noSuchFile
    | some (.file _) => .error .notDirectory
    | some .directory =>
      if Path.maxNameLength < Text.byteLength part then .error .tooLong
      else follow t (if part = upward then outer place else place ++ [Text.systemShown part]) rest

/-- What keeps a path from being followed at all. -/
def obstacle? (p : Path) : Option FileProblem :=
  match Text.systemFault? p.text with
  | some fault => some (.name fault)
  | none => if Path.maxLength < Text.byteLength p.text then some .tooLong else none

/-- The place of a path. -/
def place (t : FileTree) (p : Path) : Except FileProblem Place :=
  match obstacle? p with
  | some problem => .error problem
  | none => t.follow (if p.isAbsolute then rootPlace else []) p.parts

/-- What is at a path, absent if there is nothing. -/
def find? (t : FileTree) (p : Path) : Option FileNode :=
  match t.place p with
  | .ok place => t.node? place
  | .error _ => none

/-- The text of a place. -/
def placeText (p : Place) : Text := Text.join [Path.slash] p

/-- Whether a path leads to a place where a table may be. -/
def isTablePlace (t : FileTree) (p : Path) : Bool :=
  match t.place p with
  | .ok place => Text.byteLength (placeText place) ≤ Path.maxTableLength
  | .error _ => true

/-- Whether a path leads to a directory. -/
def isDirectory (t : FileTree) (p : Path) : Bool := t.find? p = some .directory

/-- The nodes after putting one at a place. -/
def setNode (p : Place) (n : FileNode) : List (Place × FileNode) → List (Place × FileNode)
  | [] => [(p, n)]
  | (q, m) :: rest => if q = p then (q, n) :: rest else (q, m) :: setNode p n rest

/-- Puts a node at a place. -/
def set (t : FileTree) (p : Place) (n : FileNode) : FileTree := { nodes := setNode p n t.nodes }

/-- Creates a directory whose parent is there. -/
def makeDirectory (t : FileTree) (p : Path) : Except FileProblem FileTree :=
  match t.place p with
  | .error e => .error e
  | .ok place =>
    match t.node? place with
    | some _ => .error .exists
    | none => .ok (t.set place .directory)

/-- Creates a directory unless it is there. -/
def ensureDirectory (t : FileTree) (p : Path) : Except FileFault FileTree :=
  match t.makeDirectory p with
  | .ok t => .ok t
  | .error problem => if t.isDirectory p then .ok t else .error { problem, path := p }

/-- Creates a directory and those above it, unless they are there. What was created before a fault
stays. -/
def makeDirectories (t : FileTree) (start : PathRoot) (parts : List Text) :
    FileTree × Option FileFault :=
  let p : Path := { start, parts }
  match t.makeDirectory p with
  | .ok t => (t, none)
  | .error .noSuchFile =>
    match _h : parts with
    | [] => (t, some { problem := .noSuchFile, path := p })
    | _ :: _ =>
      match makeDirectories t start parts.dropLast with
      | (t, some fault) => (t, some fault)
      | (t, none) =>
        match t.ensureDirectory p with
        | .ok t => (t, none)
        | .error fault => (t, some fault)
  | .error problem => if t.isDirectory p then (t, none) else (t, some { problem, path := p })
termination_by parts.length
decreasing_by simp [_h]

/-- The content of a file. -/
def read (t : FileTree) (p : Path) : Except FileFault FileContent :=
  match t.place p with
  | .error problem => .error { problem, path := p }
  | .ok place =>
    match t.node? place with
    | none => .error { problem := .noSuchFile, path := p }
    | some .directory => .error { problem := .isDirectory, path := p }
    | some (.file content) => .ok content

/-- Gives a file its content; a new file needs a directory to be in. -/
def write (t : FileTree) (p : Path) (content : FileContent) : Except FileFault FileTree :=
  match t.place p with
  | .error problem => .error { problem, path := p }
  | .ok place =>
    match t.node? place with
    | some .directory => .error { problem := .isDirectory, path := p }
    | _ => .ok (t.set place (.file content))

/-- The bytes of a file; those of a table are its image. -/
def readBytes (t : FileTree) (p : Path) : Except FileFault (List UInt8) :=
  (t.read p).map fun content =>
    match content with
    | .bytes b => b
    | .table t _ => t.image

/-- Whether a place lies below the working directory. -/
def isBelow (p : Place) : Bool := p.head?.any fun part => part != upward && part != [Path.slash]

/-- All places below the working directory as texts, in ascending order. -/
def listing (t : FileTree) : List Text :=
  ((t.nodes.filter fun (p, _) => isBelow p).map fun (p, _) => placeText p).mergeSort Text.le

end FileTree

end CallAudit
