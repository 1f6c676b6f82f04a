import CallAudit.Ingest.Lines

/-!
# Markings and calls of record files

Markings of one name are folded into one, which keeps the location of the first. Of several records
of one caller the last one counts. An entry point has to be a plain function: a name that carries
type arguments is refused.
-/

namespace CallAudit.Ingest

/-- The refusal of an entry point with type arguments. -/
def genericEntryPoint (source : Text) (line : Nat) (name : Text) : Failure :=
  .invalidRecord source line
    (.because ("entry point " ++ Text.quoted name ++ " must be a non-generic function"))

/-- Takes a marking into those of earlier lines. -/
def addMarking (items : List (Text × MarkedItem)) (r : MarkingRecord) : List (Text × MarkedItem) :=
  match Json.lookup? r.name items with
  | none => Json.setField r.name { marking := r.marking, location := r.location } items
  | some item => Json.setField r.name { item with marking := item.marking.merge r.marking } items

/-- Takes a line of a markings file into the markings of earlier lines; a marking without any role
is left out. -/
def addMarkingLine (source : Text) (items : List (Text × MarkedItem)) (line : Nat × Text) :
    Except Failure (List (Text × MarkedItem)) :=
  match recordOf MarkingRecord.format source line with
  | .error e => .error e
  | .ok r =>
    if !r.marking.isAnnotated then .ok items
    else if r.marking.isEntryPoint && r.name.contains openBracket then
      .error (genericEntryPoint source line.1 r.name)
    else .ok (addMarking items r)

/-- Takes a line of a call-edges file into the calls of earlier lines. -/
def addCallLine (source : Text) (calls : List (Text × List CallEdge)) (line : Nat × Text) :
    Except Failure (List (Text × List CallEdge)) :=
  match recordOf CallRecord.format source line with
  | .error e => .error e
  | .ok r => .ok (Json.setField r.caller r.edges calls)

/-- Takes lines in turn, up to the first that is refused. -/
def foldLines {β : Type} (add : β → Nat × Text → Except Failure β) :
    β → List (Nat × Text) → Except Failure β
  | acc, [] => .ok acc
  | acc, line :: rest =>
    match add acc line with
    | .error e => .error e
    | .ok acc => foldLines add acc rest

/-- The markings of a file, by name. -/
def loadMarkings (files : FileTree) (path : Path) : Except Failure (List (Text × MarkedItem)) :=
  match recordLines files path with
  | .error e => .error e
  | .ok lines => foldLines (addMarkingLine path.text) [] lines

/-- The calls of a file, by caller. -/
def loadCalls (files : FileTree) (path : Path) : Except Failure (List (Text × List CallEdge)) :=
  match recordLines files path with
  | .error e => .error e
  | .ok lines => foldLines (addCallLine path.text) [] lines

end CallAudit.Ingest
