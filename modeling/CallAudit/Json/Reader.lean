import CallAudit.Json.Token

/-!
# Reading JSON

The tokens of a text drive a machine that keeps the open containers on a stack. The machine refuses
a token out of place, and the first part of a container that is nested too deeply, at the token
where this shows; so the first fault of a text decides.
-/

namespace CallAudit.Json

/-- Why a text is not read as JSON. -/
inductive ReadFault
  | malformed
  | tooDeep
deriving DecidableEq

/-- A container that has been opened and not closed. -/
inductive OpenContainer
  /-- An array with its items so far, the last one first. -/
  | array (items : List Json)
  /-- An object with its fields so far. -/
  | object (fields : List (Text × Json))
  /-- An object that waits for the value of a field. -/
  | member (fields : List (Text × Json)) (name : Text)

/-- What may come next. -/
inductive Expected
  | value
  | firstItem
  | firstName
  | name
  | colon
  | separator

/-- Where the machine stands. -/
inductive Progress
  | within (expected : Expected) (stack : List OpenContainer)
  | done (value : Json)

/-- A value is complete: it goes into the innermost open container. -/
def deliver (v : Json) : List OpenContainer → Progress
  | [] => .done v
  | .array items :: stack => .within .separator (.array (v :: items) :: stack)
  | .member fields name :: stack => .within .separator (.object (setField name v fields) :: stack)
  | .object fields :: stack => .within .separator (.object fields :: stack)

/-- Takes a value that is a single token. -/
def takeScalar (v : Json) : Expected → List OpenContainer → Except ReadFault Progress
  | .value, stack => .ok (deliver v stack)
  | .firstItem, stack => .ok (deliver v stack)
  | _, _ => .error .malformed

/-- Opens a container where a value may stand. -/
def openContainer (container : OpenContainer) (next : Expected) :
    Expected → List OpenContainer → Except ReadFault Progress
  | .value, stack | .firstItem, stack => .ok (.within next (container :: stack))
  | _, _ => .error .malformed

/-- Whether a token puts the first part into a container. -/
def startsContent : Expected → Token → Bool
  | .firstItem, .closeArray => false
  | .firstItem, _ => true
  | .firstName, .closeObject => false
  | .firstName, _ => true
  | _, _ => false

/-- Takes one token. -/
def advance (dialect : Dialect) : Progress → Token → Except ReadFault Progress
  | .done _, _ => .error .malformed
  | .within expected stack, token =>
    if startsContent expected token && dialect.maxDepth < stack.length then .error .tooDeep
    else match token with
    | .null => takeScalar .null expected stack
    | .bool b => takeScalar (.bool b) expected stack
    | .int i => takeScalar (.int i) expected stack
    | .float x => takeScalar (.float x) expected stack
    | .str t =>
      match expected, stack with
      | .firstName, .object fields :: stack => .ok (.within .colon (.member fields t :: stack))
      | .name, .object fields :: stack => .ok (.within .colon (.member fields t :: stack))
      | _, _ => takeScalar (.str t) expected stack
    | .openArray => openContainer (.array []) .firstItem expected stack
    | .openObject => openContainer (.object []) .firstName expected stack
    | .closeArray =>
      match expected, stack with
      | .firstItem, .array items :: stack => .ok (deliver (.arr items.reverse) stack)
      | .separator, .array items :: stack => .ok (deliver (.arr items.reverse) stack)
      | _, _ => .error .malformed
    | .closeObject =>
      match expected, stack with
      | .firstName, .object fields :: stack => .ok (deliver (.obj fields) stack)
      | .separator, .object fields :: stack => .ok (deliver (.obj fields) stack)
      | _, _ => .error .malformed
    | .comma =>
      match expected, stack with
      | .separator, .array items :: stack => .ok (.within .value (.array items :: stack))
      | .separator, .object fields :: stack => .ok (.within .name (.object fields :: stack))
      | _, _ => .error .malformed
    | .colon =>
      match expected with
      | .colon => .ok (.within .value stack)
      | _ => .error .malformed
    | .bad => .error .malformed

/-- Takes a sequence of tokens. -/
def advanceAll (dialect : Dialect) : Progress → List Token → Except ReadFault Progress
  | p, [] => .ok p
  | p, token :: rest =>
    match advance dialect p token with
    | .ok p' => advanceAll dialect p' rest
    | .error e => .error e

/-- Reads a JSON text. -/
def read (dialect : Dialect) (t : Text) : Except ReadFault Json :=
  match advanceAll dialect (.within .value []) (tokens dialect t) with
  | .ok (.done v) => .ok v
  | .ok (.within ..) => .error .malformed
  | .error e => .error e

/-- The dialect of input lines and requests: a string may hold an unpaired surrogate. -/
def inputDialect : Dialect := { maxDepth := 999, loneSurrogates := true, boundedWholes := false }

/-- The dialect of stored records: strings hold scalar values only. -/
def storedDialect : Dialect := { maxDepth := 200, loneSurrogates := false, boundedWholes := true }

/-- The fields of an input text that is a JSON object, absent for any other text. A text that is
nested too deeply is neither. -/
def readObject (t : Text) : Except ReadFault (Option (List (Text × Json))) :=
  match read inputDialect t with
  | .ok (.obj fields) => .ok (some fields)
  | .ok _ => .ok none
  | .error .malformed => .ok none
  | .error .tooDeep => .error .tooDeep

end CallAudit.Json
