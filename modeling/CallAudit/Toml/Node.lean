import CallAudit.Value.Basic

/-!
# The tables of a TOML document

A document consists of parts: the entries before the first header, and those after each header. A
table may be opened by one header only, and keys with dots open the tables on their way for the
current part only. Values that were written out, inline tables included, cannot be extended.
-/

namespace CallAudit.Toml

/-- What a name of a document stands for. -/
inductive Node
  /-- A value that was written out. -/
  | value (v : Value)
  /-- A table with the number of the part that has opened it; a table that only lies on the way to
  another is not opened. -/
  | table (opened : Option Nat) (entries : List (Text × Node))
  /-- An array of tables, the last of which is being filled. -/
  | tables (elements : List (List (Text × Node)))

/-- The entries of a table. -/
abbrev Entries := List (Text × Node)

namespace Node

/-- Changes the entries of the table that a header leads to. Tables that are not there yet are
created, and of an array of tables the last one is taken. -/
def alter (change : Entries → Option Entries) : List Text → Entries → Option Entries
  | [], es => change es
  | k :: ks, es =>
    match Json.lookup? k es with
    | none => (alter change ks []).map fun inner => Json.setField k (.table none inner) es
    | some (.table opened inner) =>
      (alter change ks inner).map fun inner => Json.setField k (.table opened inner) es
    | some (.tables elements) =>
      match elements.getLast? with
      | some last =>
        (alter change ks last).map fun last =>
          Json.setField k (.tables (elements.dropLast ++ [last])) es
      | none => none
    | some (.value _) => none

/-- Gives a key a value within the current part. A key with dots may go through tables that are new,
not opened yet, or opened in this part. -/
def assign (part : Nat) (v : Value) : List Text → Entries → Option Entries
  | [], _ => none
  | [k], es =>
    match Json.lookup? k es with
    | none => some (Json.setField k (.value v) es)
    | some _ => none
  | k :: ks, es =>
    match Json.lookup? k es with
    | none => (assign part v ks []).map fun inner => Json.setField k (.table (some part) inner) es
    | some (.table opened inner) =>
      if opened = none || opened = some part then
        (assign part v ks inner).map fun inner => Json.setField k (.table (some part) inner) es
      else none
    | some _ => none

/-- Opens a table; it must not have been opened before. -/
def openTable (part : Nat) (name : Text) (es : Entries) : Option Entries :=
  match Json.lookup? name es with
  | none => some (Json.setField name (.table (some part) []) es)
  | some (.table none inner) => some (Json.setField name (.table (some part) inner) es)
  | some _ => none

/-- Appends a table to an array of tables. -/
def appendTable (name : Text) (es : Entries) : Option Entries :=
  match Json.lookup? name es with
  | none => some (Json.setField name (.tables [[]]) es)
  | some (.tables elements) => some (Json.setField name (.tables (elements ++ [[]])) es)
  | some _ => none

mutual

/-- The value of a node. -/
def toValue : Node → Value
  | .value v => v
  | .table _ entries => .map (entryValues entries)
  | .tables elements => .list (elementValues elements)
termination_by structural n => n

/-- The entries of a mapping. -/
def entryValues : List (Text × Node) → List (Value × Value)
  | [] => []
  | entry :: rest => entryValue entry :: entryValues rest
termination_by structural es => es

/-- An entry of a mapping. -/
def entryValue : Text × Node → Value × Value
  | (name, n) => (.text name, toValue n)
termination_by structural entry => entry

/-- The tables of an array. -/
def elementValues : List (List (Text × Node)) → List Value
  | [] => []
  | es :: rest => .map (entryValues es) :: elementValues rest
termination_by structural elements => elements

end

end Node

end CallAudit.Toml
