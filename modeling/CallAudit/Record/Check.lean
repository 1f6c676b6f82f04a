import CallAudit.Json.Reader
import CallAudit.Json.Printer
import CallAudit.Record.Numeral

/-!
# Checking records

A record is read from a JSON value field by field, and all faults are collected. Numbers and truth
values may be given in other forms as long as nothing is lost: an integer as a text or a whole
floating-point number, a truth value as a number or a word.
-/

namespace CallAudit

/-- A step from a value to one of its parts. -/
inductive PathStep
  | field (name : Text)
  | index (i : Nat)
deriving DecidableEq

/-- What is wrong with a part of a record. -/
inductive Problem
  | missing
  | notText
  | unreadableText
  | notBool
  | unreadableBool
  | notInt
  | unreadableInt
  | fractional
  | tooLarge
  | notFinite
  | notList
  | notObject (model : Text)
  | invalidJson
deriving DecidableEq

/-- A problem with its place in the record. -/
structure Fault where
  path : List PathStep
  problem : Problem
deriving DecidableEq

/-- Where a record comes from, which decides the wording of its faults and how large a number may be
that stands for a truth value. -/
inductive Origin
  /-- A value that has been read before. -/
  | payload
  /-- The text of a stored record. -/
  | stored
deriving DecidableEq

/-- The code of a problem. -/
def Problem.code : Problem → Text
  | .missing => "missing"
  | .notText => "string_type"
  | .unreadableText => "string_unicode"
  | .notBool => "bool_type"
  | .unreadableBool => "bool_parsing"
  | .notInt => "int_type"
  | .unreadableInt => "int_parsing"
  | .fractional => "int_from_float"
  | .tooLarge => "int_parsing_size"
  | .notFinite => "finite_number"
  | .notList => "list_type"
  | .notObject _ => "model_type"
  | .invalidJson => "json_invalid"

/-- The wording of a problem; a text that is not JSON gets none. -/
def Problem.message (origin : Origin) : Problem → Option Text
  | .missing => some "Field required"
  | .notText => some "Input should be a valid string"
  | .unreadableText =>
    some "Input should be a valid string, unable to parse raw data as a unicode string"
  | .notBool => some "Input should be a valid boolean"
  | .unreadableBool => some "Input should be a valid boolean, unable to interpret input"
  | .notInt => some "Input should be a valid integer"
  | .unreadableInt => some "Input should be a valid integer, unable to parse string as an integer"
  | .fractional => some "Input should be a valid integer, got a number with a fractional part"
  | .tooLarge => some "Unable to parse input string as an integer, exceeded maximum size"
  | .notFinite => some "Input should be a finite number"
  | .notList =>
    match origin with
    | .payload => some "Input should be a valid list"
    | .stored => some "Input should be a valid array"
  | .notObject model =>
    match origin with
    | .payload => some ("Input should be a valid dictionary or instance of " ++ model)
    | .stored => some "Input should be an object"
  | .invalidJson => none

/-- A checked part of a record, or all its faults. -/
abbrev Checked (α : Type) := Except (List Fault) α

namespace Checked

variable {α β γ : Type}

/-- A single fault at the part itself. -/
def fail (p : Problem) : Checked α := .error [⟨[], p⟩]

/-- Both parts, or the faults of both. -/
def zip : Checked α → Checked β → Checked (α × β)
  | .ok a, .ok b => .ok (a, b)
  | .ok _, .error f => .error f
  | .error e, .ok _ => .error e
  | .error e, .error f => .error (e ++ f)

/-- Moves the faults of a part to their place in the whole. -/
def at_ (step : PathStep) : Checked α → Checked α
  | .ok a => .ok a
  | .error fs => .error (fs.map fun f => { f with path := step :: f.path })

/-- A field that has to be there. -/
def required (fields : List (Text × Json)) (name : Text) (check : Json → Checked α) : Checked α :=
  at_ (.field name) (match Json.lookup? name fields with
    | some v => check v
    | none => fail .missing)

/-- A field that may be left out. -/
def optional (fields : List (Text × Json)) (name : Text) (fallback : α) (check : Json → Checked α) :
    Checked α :=
  match Json.lookup? name fields with
  | some v => at_ (.field name) (check v)
  | none => .ok fallback

/-- Every item of a list, numbered from `i` on. -/
def items (check : Json → Checked α) : (i : Nat) → List Json → Checked (List α)
  | _, [] => .ok []
  | i, v :: rest =>
    (zip (at_ (.index i) (check v)) (items check (i + 1) rest)).map fun (a, as) => a :: as

/-- A list of parts. -/
def list (check : Json → Checked α) : Json → Checked (List α)
  | .arr vs => items check 0 vs
  | _ => fail .notList

/-- The fields of an object that stands for the given model. -/
def object (model : Text) (check : List (Text × Json) → Checked α) : Json → Checked α
  | .obj fields => check fields
  | _ => fail (.notObject model)

/-! ## Scalars -/

/-- A text. -/
def text : Json → Checked Text
  | .str t => .ok t
  | _ => fail .notText

/-- A text or null. -/
def textOrNull : Json → Checked (Option Text)
  | .null => .ok none
  | v => (text v).map some

/-- The end of the range of signed 64-bit words. -/
def wordBound : Int := 9223372036854775808

/-- The integer that a whole floating-point number within the range of words stands for. -/
def intOfFloat (x : Binary64) : Checked Int :=
  if !x.isFinite then fail .notFinite
  else
    match x.toInt? with
    | none => fail .fractional
    | some i => if -wordBound < i && i < wordBound then .ok i else fail .tooLarge

/-- Whether an integer is a signed 64-bit word. -/
def isWord (i : Int) : Bool := -wordBound ≤ i && i < wordBound

/-- A truth value given as a small integer. -/
def boolOfInt (i : Int) : Checked Bool :=
  if i = 0 then .ok false else if i = 1 then .ok true else fail .unreadableBool

/-- The words for false. -/
def falseWords : List Text := ["0", "off", "f", "false", "n", "no"]

/-- The words for true. -/
def trueWords : List Text := ["1", "on", "t", "true", "y", "yes"]

/-- A truth value: itself, zero or one, or a word in any case. -/
def bool : Json → Checked Bool
  | .bool b => .ok b
  | .int i => if isWord i then boolOfInt i else fail .notBool
  | .float x =>
    match intOfFloat x with
    | .ok i => boolOfInt i
    | .error _ => fail .notBool
  | .str t =>
    if !Text.isScalar t then fail .unreadableText
    else if falseWords.contains (Text.lowerAscii t) then .ok false
    else if trueWords.contains (Text.lowerAscii t) then .ok true
    else fail .unreadableBool
  | _ => fail .notBool

/-- An integer given as a text. -/
def intOfText (t : Text) : Checked Int :=
  match Numeral.read t with
  | .ok i => .ok i
  | .error .malformed => fail .unreadableInt
  | .error .tooLong => fail .tooLarge

/-- An integer: itself, a truth value, a whole number or a numeral. -/
def int : Json → Checked Int
  | .int i => .ok i
  | .bool b => .ok (if b then 1 else 0)
  | .float x => intOfFloat x
  | .str t => if Text.isScalar t then intOfText t else fail .unreadableText
  | _ => fail .notInt

end Checked

/-- The faults of a record that stands for the given model. -/
structure Invalid where
  model : Text
  origin : Origin
  faults : List Fault
deriving DecidableEq

/-- The number of faults in words. -/
def Invalid.summary (e : Invalid) : Text :=
  Text.ofNat e.faults.length ++
    (if e.faults.length = 1 then Text.ofString " validation error for "
      else " validation errors for ") ++
    e.model

/-- How records of one kind are read and written. -/
structure RecordFormat (α : Type) where
  model : Text
  check : Json → Checked α
  toJson : α → Json

namespace RecordFormat

variable {α : Type} (format : RecordFormat α)

/-- Reads a record from a value that has been read before. -/
def ofPayload (v : Json) : Except Invalid α :=
  match format.check v with
  | .ok a => .ok a
  | .error faults => .error { model := format.model, origin := .payload, faults }

/-- Checks the text of a stored record: it holds scalar values only, and it is JSON. -/
def checkStored (t : Text) : Checked α :=
  if !Text.isScalar t then Checked.fail .unreadableText
  else
    match Json.read Json.storedDialect t with
    | .error _ => Checked.fail .invalidJson
    | .ok v => format.check v

/-- Reads a record from the text of a stored record. -/
def ofStored (t : Text) : Except Invalid α :=
  match format.checkStored t with
  | .ok a => .ok a
  | .error faults => .error { model := format.model, origin := .stored, faults }

/-- The text of a stored record. -/
def toStored (a : α) : Text := Json.compact .raw (format.toJson a)

/-- A list of records. -/
def list : RecordFormat (List α) where
  model := "list[" ++ format.model ++ "]"
  check := Checked.list format.check
  toJson as := .arr (as.map format.toJson)

end RecordFormat

end CallAudit
