import CallAudit.Files.Path
import CallAudit.Text.Blank
import CallAudit.Text.Lower
import CallAudit.Text.System

/-!
# Settings from the environment

Two variables are looked at: one names the store, the other switches logging on. Values are trimmed
and, where they are words, read in any case.
-/

namespace CallAudit

/-- Environment variables, the one set last first. -/
abbrev Environment := List (Text × Text)

namespace Environment

/-- The variable that names the store. -/
def depstoreName : Text := "TAURUS_DEPSTORE"

/-- The variable that switches logging on. -/
def logName : Text := "TAURUS_LOG"

/-- The words that switch something on. -/
def onWords : List Text := ["1", "true", "yes", "on"]

/-- The words that switch something off. -/
def offWords : List Text := ["0", "false", "no", "off"]

/-- Why a variable cannot be set. -/
inductive VariableFault
  /-- The name or the value cannot be handed to the system. -/
  | text (fault : Text.SystemFault)
  /-- The name has an equals sign in it. -/
  | nameWithEquals
  | emptyName
deriving DecidableEq

/-- The message for a variable that cannot be set. -/
def VariableFault.message : VariableFault → Text
  | .text fault => fault.message
  | .nameWithEquals => "illegal environment variable name"
  | .emptyName => "[Errno 22] Invalid argument"

/-- What keeps a variable from being set. A text without bytes is found before one with a zero
byte. -/
def variableFault? (name value : Text) : Option VariableFault :=
  match Text.systemFault? name, Text.systemFault? value with
  | some (.unencodable fault), _ => some (.text (.unencodable fault))
  | _, some (.unencodable fault) => some (.text (.unencodable fault))
  | some .zeroByte, _ => some (.text .zeroByte)
  | _, some .zeroByte => some (.text .zeroByte)
  | none, none =>
    if name.contains (CodePoint.ofChar '=') then some .nameWithEquals
    else if name.isEmpty then some .emptyName
    else none

/-- The environment after setting variables one after another. Names and values are kept as the
system shows them. -/
def setAll (env : Environment) : List (Text × Text) → Except VariableFault Environment
  | [] => .ok env
  | (name, value) :: rest =>
    match variableFault? name value with
    | some fault => .error fault
    | none => setAll ((Text.systemShown name, Text.systemShown value) :: env) rest

/-- The environment with the given variables, later ones in place of earlier ones of the same
name. -/
def ofVariables (given : List (Text × Text)) : Except VariableFault Environment := setAll [] given

/-- The value of a variable. Names with the same bytes are the same. -/
def find? (env : Environment) (name : Text) : Option Text := env.lookup (Text.systemShown name)

/-- A word without the blanks around it and in lower case. -/
def word (t : Text) : Text := Text.lower (Text.trim t)

/-- Whether a word switches something on. -/
def isOn (t : Text) : Bool := onWords.contains (word t)

/-- The trimmed value of a variable, or of the fallback if it is not set. -/
def value (env : Environment) (name fallback : Text) : Text :=
  Text.trim ((env.find? name).getD fallback)

/-- Whether a given word, or else a variable, switches something on. -/
def flag (env : Environment) (name : Text) (given : Option Text) : Bool :=
  isOn (given.getD ((env.find? name).getD []))

/-- The store named by a given text, or else by the environment. -/
def depstore? (env : Environment) (given : Option Text) : Option Path :=
  let t := match given with
    | some t => Text.trim t
    | none => env.value depstoreName []
  if t.isEmpty then none else some (.ofText t)

/-- The levels of logging, by name. -/
def levels : List (Text × Int) := [
  ("trace", 10), ("debug", 10), ("info", 20), ("warn", 30), ("warning", 30), ("error", 40),
  ("critical", 50)]

/-- The level that a word asks for: none if it is empty or switches off, the most detailed one if it
switches on or is no level. -/
def levelOfWord (t : Text) : Option Int :=
  let w := word t
  if w.isEmpty || offWords.contains w then none
  else if isOn w then some 10
  else some ((levels.lookup w).getD 10)

/-- The level that a given word, or else the environment, asks for. -/
def logLevel (env : Environment) (given : Option Text) : Option Int :=
  match given with
  | some t => levelOfWord t
  | none => (env.find? logName).bind levelOfWord

end Environment

end CallAudit
