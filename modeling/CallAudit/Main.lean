import CallAudit.Command.Places
import CallAudit.Depstore.Image

/-!
# The command line

The files that a command needs are read into a file tree, the command runs on it, and what it has
changed is written back. A command that writes to a depstore holds its lock while it does so.
-/

namespace CallAudit.Main

/-- A text as a string; a surrogate is shown as a replacement character. -/
def stringOf (t : Text) : String :=
  String.ofList (t.map fun c => (CodePoint.toChar? c).getD (Char.ofNat 0xfffd))

/-- The variables that commands look at. -/
def environment : IO Environment := do
  let names := [Environment.depstoreName, Environment.logName]
  let values ← names.mapM fun n => return (n, ← IO.getEnv (stringOf n))
  return values.filterMap fun (n, v) => v.map fun v => (n, Text.ofString v)

/-- The content of a file; the file of a table is recognised by its image. -/
def contentOf (p : Path) (bytes : List UInt8) : FileContent :=
  if p.name = Text.ofString "db" then
    match Table.ofImage? bytes with
    | some t => .table t 1
    | none => .ofBytes p bytes
  else .bytes bytes

/-- What is at a path. -/
def nodeAt (p : Path) : IO (Option FileNode) := do
  let place := (← IO.currentDir) / stringOf p.text
  if ← place.isDir then return some .directory
  else if ← place.pathExists then
    return some (.file (contentOf p (← IO.FS.readBinFile place).toList))
  else return none

/-- Reads what is at a path into the tree. -/
def loadPath (t : FileTree) (p : Path) : IO FileTree := do
  match t.place p, ← nodeAt p with
  | .ok place, some node =>
    return if FileTree.isAbove place || place = FileTree.rootPlace then t else t.set place node
  | _, _ => return t

/-- Reads what is at paths, and above them, into the tree. -/
def loadPaths (t : FileTree) (paths : List Path) : IO FileTree :=
  (paths.flatMap Path.ancestry).foldlM loadPath t

/-- The files that a command works on. -/
def loadFiles (env : Environment) (c : Command) : IO FileTree := do
  let files ← loadPaths {} c.configPaths
  let config := match c.places? with
    | some o => (o.settings files).toOption.getD []
    | none => []
  loadPaths files (c.workPaths env config)

/-- The path of a place as a string. -/
def stringOfPlace (p : Place) : String :=
  match p with
  | first :: rest =>
    if first = [Path.slash] then stringOf (Path.slash :: Text.join [Path.slash] rest)
    else stringOf (Text.join [Path.slash] p)
  | [] => "."

/-- The bytes of a file. -/
def bytesOf : FileContent → List UInt8
  | .bytes b => b
  | .table t _ => t.image

/-- Writes what a command has changed. -/
def storeFiles (before after : FileTree) : IO Unit :=
  for (place, node) in after.nodes do
    unless before.nodes.lookup place = some node do
      match node with
      | .directory => IO.FS.createDirAll (stringOfPlace place)
      | .file content => IO.FS.writeBinFile (stringOfPlace place) ⟨(bytesOf content).toArray⟩

/-- Runs a command on the files as they are now. -/
def runOnce (env : Environment) (args : List Text) (c : Command) : IO CommandResult := do
  let files ← loadFiles env c
  let result := Command.run env args files
  storeFiles files result.files
  return result

/-- The lock of the depstore that a command writes to, if it gets as far as that. -/
def lockOf? (env : Environment) (args : List Text) (c : Command) (files : FileTree) : Option Path :=
  match c, (Command.run env args files).exit with
  | .ingest o, .ok 0 =>
    (o.places.settings files).toOption.map fun config =>
      Ingest.lockFile (o.places.resolveDepstore env config)
  | _, _ => none

/-- Runs a command, holding the lock of the depstore if it writes to one. -/
def runLocked (env : Environment) (args : List Text) (c : Command) : IO CommandResult := do
  match lockOf? env args c (← loadFiles env c) with
  | none => runOnce env args c
  | some lock =>
    IO.FS.createDirAll (stringOf lock.parent.text)
    let handle ← IO.FS.Handle.mk (stringOf lock.text) .write
    handle.lock
    let result ← runOnce env args c
    handle.unlock
    return result

/-- Shows why a command was not carried out; gives the exit code. -/
def refuse (fault : CommandFault) : IO UInt32 := do
  match fault with
  | .usage f =>
    IO.eprint (stringOf (Command.usage ++ "\nError: " ++ f.message ++ "\n"))
    return 2
  | .failure f =>
    IO.eprint (stringOf (f.message ++ "\n"))
    return 1

end CallAudit.Main

open CallAudit CallAudit.Main in
/-- Runs the command that the arguments ask for. -/
def main (args : List String) : IO UInt32 := do
  let args := args.map Text.ofString
  let env ← environment
  match Command.ofArguments args with
  | .error f => refuse (.usage f)
  | .ok command =>
    let result ← runLocked env args command
    IO.print (stringOf result.stdout)
    IO.eprint (stringOf result.stderr)
    match result.exit with
    | .ok code => return UInt32.ofNat code
    | .error fault => refuse fault
