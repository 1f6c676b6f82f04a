import CallAudit.Json.Basic

/-!
# Dynamic values

Settings, diagnostic context and payloads hold values whose type is known only when they arrive. A
mapping may have keys of any type; truth values, integers and floating-point numbers that are equal
as numbers are the same key.
-/

namespace CallAudit

/-- The kinds of calendar values. -/
inductive MomentKind
  | date
  | time
  | dateTime
deriving DecidableEq

/-- The word for a kind. -/
def MomentKind.word : MomentKind → Text
  | .date => "date"
  | .time => "time"
  | .dateTime => "datetime"

/-- A dynamic value. -/
inductive Value
  | null
  | bool (b : Bool)
  | int (i : Int)
  | float (x : Binary64)
  | text (t : Text)
  | list (items : List Value)
  | tuple (items : List Value)
  | map (entries : List (Value × Value))
  | moment (kind : MomentKind) (written : Text)

namespace Value

/-- The number that a value stands for in comparisons. -/
def number? : Value → Option Binary64
  | .bool b => some (.ofInt (if b then 1 else 0))
  | .int i => some (.ofInt i)
  | .float x => some x
  | _ => none

/-- The name of a value's type in messages. -/
def typeName : Value → Text
  | .null => "NoneType"
  | .bool _ => "bool"
  | .int _ => "int"
  | .float _ => "float"
  | .text _ => "str"
  | .list _ => "list"
  | .tuple _ => "tuple"
  | .map _ => "dict"
  | .moment kind _ => "datetime." ++ kind.word

/-- Null, false, zero and whatever is empty. -/
def isVoid : Value → Bool
  | .null => true
  | .bool b => !b
  | .int i => i == 0
  | .float x => Binary64.eq x (.ofInt 0)
  | .text t => t.isEmpty
  | .list items => items.isEmpty
  | .tuple items => items.isEmpty
  | .map entries => entries.isEmpty
  | .moment .. => false

/-- Equality with a number. -/
def sameNumber (x : Binary64) (w : Value) : Bool :=
  match w.number? with
  | some y => Binary64.eq x y
  | none => false

mutual

/-- Equality of values: numbers by value, sequences item by item, mappings regardless of order. -/
def same : Value → Value → Bool
  | .null, .null => true
  | .text s, .text t => s == t
  | .list xs, .list ys => sameItems xs ys
  | .tuple xs, .tuple ys => sameItems xs ys
  | .map xs, .map ys => xs.length == ys.length && sameEntries xs ys
  | .moment k s, .moment l t => k == l && s == t
  | .bool a, w => sameNumber (.ofInt (if a then 1 else 0)) w
  | .int a, w => sameNumber (.ofInt a) w
  | .float a, w => sameNumber a w
  | _, _ => false
termination_by structural v => v

/-- Equality item by item. -/
def sameItems : List Value → List Value → Bool
  | [], [] => true
  | x :: xs, y :: ys => same x y && sameItems xs ys
  | _, _ => false
termination_by structural xs => xs

/-- Every entry occurs among the given ones. -/
def sameEntries : List (Value × Value) → List (Value × Value) → Bool
  | [], _ => true
  | entry :: rest, ys => sameEntry entry ys && sameEntries rest ys
termination_by structural xs => xs

/-- The entry occurs among the given ones. -/
def sameEntry : Value × Value → List (Value × Value) → Bool
  | (k, v), ys => ys.any fun (l, w) => same k l && same v w
termination_by structural entry => entry

end

/-- The entries of a mapping after giving `key` a value: an equal key keeps its place and its
spelling. -/
def setEntry (key value : Value) : List (Value × Value) → List (Value × Value)
  | [] => [(key, value)]
  | (k, v) :: rest => if same k key then (k, value) :: rest else (k, v) :: setEntry key value rest

mutual

/-- The part of a value that keeps it from being a key: a list or a mapping, also inside of
tuples. -/
def changeable? : Value → Option Value
  | .list items => some (.list items)
  | .map entries => some (.map entries)
  | .tuple items => changeableItem? items
  | _ => none
termination_by structural v => v

/-- The first part of items that keeps them from being keys. -/
def changeableItem? : List Value → Option Value
  | [] => none
  | v :: rest => (changeable? v).or (changeableItem? rest)
termination_by structural items => items

end

/-- A value that cannot be a key, by the type of the part that keeps it from being one. -/
structure KeyFault where
  type : Text
deriving DecidableEq

/-- The message for a value that cannot be a key. -/
def KeyFault.message (f : KeyFault) : Text := "unhashable type: '" ++ f.type ++ "'"

/-- Gives a key a value, if it can be one. -/
def putEntry (key value : Value) (entries : List (Value × Value)) :
    Except KeyFault (List (Value × Value)) :=
  match changeable? key with
  | some part => .error ⟨part.typeName⟩
  | none => .ok (setEntry key value entries)

/-- A mapping with textual keys. -/
def ofTable (fields : List (Text × Value)) : Value := .map (fields.map fun (k, v) => (.text k, v))

/-- The entry of a table. -/
def entry? (name : Text) : List (Value × Value) → Option Value
  | [] => none
  | (.text k, v) :: rest => if k = name then some v else entry? name rest
  | _ :: rest => entry? name rest

mutual

/-- A JSON value as a dynamic value. -/
def ofJson : Json → Value
  | .null => .null
  | .bool b => .bool b
  | .int i => .int i
  | .float x => .float x
  | .str t => .text t
  | .arr items => .list (ofJsonItems items)
  | .obj fields => .map (ofJsonFields fields)
termination_by structural v => v

/-- The items of an array as dynamic values. -/
def ofJsonItems : List Json → List Value
  | [] => []
  | v :: rest => ofJson v :: ofJsonItems rest
termination_by structural items => items

/-- The fields of an object as entries of a mapping. -/
def ofJsonFields : List (Text × Json) → List (Value × Value)
  | [] => []
  | field :: rest => ofJsonField field :: ofJsonFields rest
termination_by structural fields => fields

/-- A field of an object as an entry of a mapping. -/
def ofJsonField : Text × Json → Value × Value
  | (name, v) => (.text name, ofJson v)
termination_by structural field => field

end

theorem ofJsonItems_eq_map (items : List Json) : ofJsonItems items = items.map ofJson := by
  induction items with
  | nil => rfl
  | cons v items ih => rw [ofJsonItems, ih, List.map_cons]

theorem ofJsonFields_eq_map (fields : List (Text × Json)) :
    ofJsonFields fields = fields.map fun field => (.text field.1, ofJson field.2) := by
  induction fields with
  | nil => rfl
  | cons field fields ih => rw [ofJsonFields, ih, List.map_cons, ofJsonField]

end Value

end CallAudit
