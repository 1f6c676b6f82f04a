import CallAudit.Depstore.Store
import CallAudit.Ingest.Records

/-!
# Ingest

Record files are taken into a depstore. Both files are read and checked before anything is written,
so a bad file leaves the store as it was. Writers take turns by a lock file in the depstore.
-/

namespace CallAudit.Ingest

/-- The lock file of a depstore. -/
def lockFile (depstore : Path) : Path := depstore.child ".lock"

/-- Takes the lock of a depstore, which is created if need be. -/
def acquireLock (depstore : Path) : Action Path := do
  let failure (fault : FileFault) : Failure := .storeUnavailable depstore fault.message
  Action.makeDirectories depstore failure
  Action.write (lockFile depstore) (.bytes []) failure
  return lockFile depstore

/-- What was taken in. -/
structure Summary where
  markings : Nat
  callers : Nat
  callEdges : Nat
deriving DecidableEq

/-- The summary in words. -/
def Summary.shown (s : Summary) (depstore : Path) : Text :=
  Text.ofNat s.markings ++ " marking(s), " ++ Text.ofNat s.callers ++ " caller(s), " ++
    Text.ofNat s.callEdges ++ " call edge(s) into " ++ depstore.text

/-- The logger of ingest runs. -/
def loggerName : Text := "taurus.ingest.records"

/-- The records of a file that may be left out. -/
def loadGiven {α : Type} (load : FileTree → Path → Except Failure (List α)) (path : Option Path) :
    Action (List α) := do
  match path with
  | none => return []
  | some p => Action.ofExcept (load (← Action.files) p)

/-- Takes record files into a depstore. -/
def run (depstore : Path) (markingsFile callsFile : Option Path) : Action Summary := do
  let markings ← loadGiven loadMarkings markingsFile
  let calls ← loadGiven loadCalls callsFile
  let _ ← acquireLock depstore
  unless markings.isEmpty do
    let store ← openMarkings depstore
    let _ ← store.save markings
  unless calls.isEmpty do
    let store ← openCalls depstore
    let _ ← store.save calls
  let summary : Summary := {
    markings := markings.length
    callers := calls.length
    callEdges := (calls.flatMap fun (_, edges) => edges).length }
  Action.log loggerName 20 ("ingested " ++ summary.shown depstore)
  return summary

end CallAudit.Ingest
