import CallAudit.Audit.Traversal
import CallAudit.Files.Tree
import CallAudit.Logging
import CallAudit.Record.Check

/-!
# Failures

What can go wrong while records are taken in, stored and analysed. Malformed input, damaged rows and
an inaccessible store are reported as such; the remaining failures come from texts that cannot be
encoded or decoded, from input that is nested too deeply and from files that cannot be used.
-/

namespace CallAudit

/-- Why a record is refused. -/
inductive RefusalReason
  | because (t : Text)
  | invalid (e : Invalid)
deriving DecidableEq

/-- A reason in one line. -/
def RefusalReason.message : RefusalReason → Text
  | .because t => t
  | .invalid e => e.summary

/-- What went wrong. -/
inductive Failure
  /-- An input line is malformed or breaks a rule for markings. -/
  | invalidRecord (source : Text) (line : Int) (reason : RefusalReason)
  /-- A stored record cannot be read back. -/
  | corruptRecord (table key : Text) (reason : RefusalReason)
  /-- A store cannot be created, opened or used. -/
  | storeUnavailable (path : Path) (reason : Text)
  /-- A text has no encoding. -/
  | unencodable (fault : Utf8.EncodeFault)
  /-- A record has no encoding. -/
  | unencodableRecord
  /-- A file does not hold UTF-8. -/
  | undecodable (fault : Utf8.DecodeFault)
  /-- An input is nested too deeply. -/
  | tooDeep
  /-- An integer of a configuration file has too many digits. -/
  | hugeInteger (digits : Nat)
  /-- A value is not written out. -/
  | unwritable (fault : WriteFault)
  /-- A file cannot be used. -/
  | file (fault : FileFault)
  /-- An audit met a graph that no records describe. -/
  | audit (fault : AuditFault)
deriving DecidableEq

namespace Failure

/-- The message for a failure. -/
def message : Failure → Text
  | .invalidRecord source line reason => source ++ ":" ++ Text.ofInt line ++ ": " ++ reason.message
  | .corruptRecord table key reason =>
    "corrupted record " ++ Text.quoted key ++ " in " ++ table ++ " store: " ++ reason.message
  | .storeUnavailable path reason =>
    "failed to access consistent storage at " ++ path.text ++ ": " ++ reason
  | .unencodable fault => fault.message
  | .unencodableRecord => "record cannot be encoded"
  | .undecodable fault => fault.message
  | .tooDeep => "input is nested too deeply"
  | .hugeInteger digits =>
    "Exceeds the limit (4300 digits) for integer string conversion: value has " ++
      Text.ofNat digits ++
      " digits; use sys.set_int_max_str_digits() to increase the limit"
  | .unwritable fault => fault.message
  | .file fault => fault.message
  | .audit (.graph (.unknownNode h)) => (CallGraph.unknownNode (.int h)).reason
  | .audit (.graph .unnamedNode) => "'name'"
  | .audit (.notUnwound n) => (Traversal.notUnwound n).reason
  | .audit (.outOfSync last) => (Traversal.outOfSync last).reason
  | .audit .noTrail => "pop from empty list"

/-- Whether a failure ends a command with a message. The others are not expected. -/
def isReported : Failure → Bool
  | .invalidRecord .. => true
  | .corruptRecord .. => true
  | .storeUnavailable .. => true
  | _ => false

end Failure

/-- What an action works on: the files, and the log records it has written. -/
structure World where
  files : FileTree := {}
  journal : List LogRecord := []

/-- An action may fail; what it did before it failed stays done. -/
abbrev Action := ExceptT Failure (StateM World)

namespace Action

/-- Writes a log record. -/
def log (logger : Text) (level : Int) (message : Text) : Action Unit :=
  modify fun w => { w with journal := w.journal ++ [{ logger, level, message }] }

/-- Takes a result that may be a failure. -/
def ofExcept {α : Type} : Except Failure α → Action α
  | .ok a => pure a
  | .error e => throw e

/-- The files as they are. -/
def files : Action FileTree := return (← get).files

/-- Puts the files in place. -/
def setFiles (t : FileTree) : Action Unit := modify fun w => { w with files := t }

/-- The failure for a fault of the file system; a path that never gets there fails as it is. -/
def failureOf (failure : FileFault → Failure) (fault : FileFault) : Failure :=
  if fault.problem.isSystem then failure fault else .file fault

/-- Creates a directory and those above it, unless they are there. -/
def makeDirectories (p : Path) (failure : FileFault → Failure) : Action Unit := do
  match (← files).makeDirectories p.start p.parts with
  | (t, none) => setFiles t
  | (t, some fault) => setFiles t; throw (failureOf failure fault)

/-- Gives a file its content. -/
def write (p : Path) (content : FileContent) (failure : FileFault → Failure) : Action Unit := do
  match (← files).write p content with
  | .ok t => setFiles t
  | .error fault => throw (failureOf failure fault)

end Action

end CallAudit
