import CallAudit.Json.Printer
import CallAudit.Value.Shown

/-!
# Canonical JSON

In the canonical form of a value all mappings have textual keys in ascending order; of several keys
with the same text the last value counts. Tuples become lists, and everything else is kept. Two
payloads that differ only in the order of their entries have the same canonical form and the same
text.

Not every value has a canonical form: its keys have to be written out, and its containers must not
be nested more deeply than the call stack has room for. A canonical form has a JSON text if its
dates are none and its integers are not too long.
-/

namespace CallAudit.Value

/-- Fields in ascending order of their names, a repeated name with its last value. -/
def orderedFields {α : Type} (fields : List (Text × α)) : List (Text × α) :=
  (fields.mergeSort fun a b => Text.le a.1 b.1).foldl (fun done (n, v) => Json.setField n v done) []

/-- The room for showing a key where there is room for so many levels of a payload: a level of a
payload takes twice as much of the call stack. -/
def keyRoom (room : Nat) : Nat := 2 * room + 1

mutual

/-- The canonical form of a value, with room for so many levels of containers. -/
def canonical : (room : Nat) → Value → Except WriteFault Value
  | room + 1, .list items => (canonicalItems room items).map .list
  | room + 1, .tuple items => (canonicalItems room items).map .list
  | room + 1, .map entries =>
    (canonicalEntries room entries).map fun fs => .ofTable (orderedFields fs)
  | 0, .list _ => .error .tooDeep
  | 0, .tuple _ => .error .tooDeep
  | 0, .map _ => .error .tooDeep
  | _, v => .ok v
termination_by structural _ v => v

/-- The canonical form of every item. -/
def canonicalItems : (room : Nat) → List Value → Except WriteFault (List Value)
  | _, [] => .ok []
  | room, v :: rest => do
    let form ← canonical room v
    return form :: (← canonicalItems room rest)
termination_by structural _ items => items

/-- The canonical form of every entry, in the given order. -/
def canonicalEntries : (room : Nat) → List (Value × Value) → Except WriteFault (List (Text × Value))
  | _, [] => .ok []
  | room, entry :: rest => do
    let form ← canonicalEntry room entry
    return form :: (← canonicalEntries room rest)
termination_by structural _ entries => entries

/-- The canonical form of an entry. -/
def canonicalEntry : (room : Nat) → Value × Value → Except WriteFault (Text × Value)
  | room, (k, v) => do
    let key ← name (keyRoom room) k
    return (key, ← canonical room v)
termination_by structural _ entry => entry

end

/-! ## JSON texts -/

/-- The name of a field with the given key. -/
def fieldName : Value → Except WriteFault Text
  | .text t => .ok t
  | .null => .ok "null"
  | .bool b => .ok (Json.boolText b)
  | .int i => Text.writeInt i
  | .float x => .ok (Json.floatText x)
  | .moment kind _ => .error (.noFieldName kind.word)
  | v => .error (.noFieldName v.typeName)

mutual

/-- The JSON value that is written for a value. -/
def toJson : Value → Except WriteFault Json
  | .null => .ok .null
  | .bool b => .ok (.bool b)
  | .int i => (Text.writeInt i).map fun _ => .int i
  | .float x => .ok (.float x)
  | .text t => .ok (.str t)
  | .list items => (toJsonItems items).map .arr
  | .tuple items => (toJsonItems items).map .arr
  | .map entries => (toJsonFields entries).map .obj
  | .moment kind _ => .error (.noJson kind.word)
termination_by structural v => v

/-- The JSON values that are written for items. -/
def toJsonItems : List Value → Except WriteFault (List Json)
  | [] => .ok []
  | v :: rest => do
    let j ← toJson v
    return j :: (← toJsonItems rest)
termination_by structural items => items

/-- The fields that are written for entries. -/
def toJsonFields : List (Value × Value) → Except WriteFault (List (Text × Json))
  | [] => .ok []
  | entry :: rest => do
    let field ← toJsonField entry
    return field :: (← toJsonFields rest)
termination_by structural entries => entries

/-- The field that is written for an entry. -/
def toJsonField : Value × Value → Except WriteFault (Text × Json)
  | (k, v) => do
    let name ← fieldName k
    return (name, ← toJson v)
termination_by structural entry => entry

end

/-- The pretty text of a payload's canonical form. -/
def prettyJson (room : Nat) (payload : Value) : Except WriteFault Text := do
  let form ← canonical room payload
  let j ← toJson form
  return Json.pretty j

/-- How many levels of containers the call stack has room for when a payload is written. -/
def stackRoom : Nat := 490

end CallAudit.Value
