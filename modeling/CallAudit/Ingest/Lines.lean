import CallAudit.Failure
import CallAudit.Record.Format

/-!
# Lines of record files

A record file has one JSON object on each line that is not blank. Lines end at LF, CR or CR LF and
are numbered from one, blank ones included.
-/

namespace CallAudit.Ingest

/-- Numbers the elements of a list. -/
def numbered {α : Type} : (first : Nat) → List α → List (Nat × α)
  | _, [] => []
  | n, a :: rest => (n, a) :: numbered (n + 1) rest

/-- The trimmed lines of a text with their numbers, blank ones left out. -/
def linesOf (t : Text) : List (Nat × Text) :=
  ((numbered 1 (Text.splitOn (CodePoint.ofChar '\n') (Text.unifyNewlines t))).map
    fun (n, line) => (n, Text.trim line)).filter fun (_, line) => !line.isEmpty

/-- The number of bytes that are decoded at a time, which shows in the positions of faults. -/
def blockSize : Nat := 8192

/-- The lines of a file. -/
def readLines (files : FileTree) (path : Path) : Except Failure (List (Nat × Text)) :=
  match files.readBytes path with
  | .error fault => .error (.file fault)
  | .ok bytes =>
    match Utf8.decode bytes with
    | .error fault => .error (.undecodable (fault.inBlocks blockSize bytes))
    | .ok t => .ok (linesOf t)

/-- The record on a line. -/
def recordOf {α : Type} (format : RecordFormat α) (source : Text) (line : Nat × Text) :
    Except Failure α :=
  match Json.readObject line.2 with
  | .error _ => .error .tooDeep
  | .ok none => .error (.invalidRecord source line.1 (.because "record is not a JSON object"))
  | .ok (some fields) =>
    (format.ofPayload (.obj fields)).mapError fun e => .invalidRecord source line.1 (.invalid e)

/-- The failure of a record file that cannot be read: an invalid record on line zero. A path with a
zero byte fails as it is. -/
def unreadable (path : Path) : Failure → Failure
  | .file { problem := .name .zeroByte, path } => .file { problem := .name .zeroByte, path }
  | e => .invalidRecord path.text 0 (.because ("cannot read records: " ++ e.message))

/-- The lines of a record file. -/
def recordLines (files : FileTree) (path : Path) : Except Failure (List (Nat × Text)) :=
  (readLines files path).mapError (unreadable path)

end CallAudit.Ingest
