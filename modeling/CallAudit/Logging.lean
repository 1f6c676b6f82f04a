import CallAudit.Settings.Environment

/-!
# Logging

Everything is logged below one logger. Configuring it puts one handler in place of the one that an
earlier configuration installed, so that records are never written twice; handlers that others have
added are left alone. Without a level the logger stays silent.

A record is handed up from logger to logger. The loggers above one are those named by the parts of
its name before a dot, as far as there are such loggers, and a logger is there once a record has
been given to it.
-/

namespace CallAudit

/-- A message with its level and the name of the logger that it was given to. -/
structure LogRecord where
  logger : Text
  level : Int
  message : Text
deriving DecidableEq

namespace LogRecord

/-- The word for a level. -/
def levelWord (level : Int) : Text :=
  if level = 10 then "DEBUG"
  else if level = 20 then "INFO"
  else if level = 30 then "WARNING"
  else if level = 40 then "ERROR"
  else if level = 50 then "CRITICAL"
  else "Level " ++ Text.ofInt level

/-- The line that is written for a record. -/
def line (r : LogRecord) : Text :=
  "[" ++ levelWord r.level ++ " " ++ r.logger ++ "] " ++ r.message ++ "\n"

end LogRecord

/-- A handler of the logger. -/
inductive LogHandler
  /-- Installed by a configuration that writes to a stream. -/
  | stream (name : Text)
  /-- Installed by a configuration that stays silent. -/
  | silent
  /-- Added by others, and told apart by a name. -/
  | foreign (name : Text)
deriving DecidableEq

/-- Whether a handler was installed by a configuration. -/
def LogHandler.isOwn : LogHandler → Bool
  | .foreign _ => false
  | _ => true

/-- The logger with what has been written to each stream. -/
structure Logger where
  handlers : List LogHandler := []
  level : Int := 0
  propagate : Bool := true
  streams : List (Text × Text) := []
  /-- The level of the logger above all others, which counts while this one has none. -/
  inherited : Int := 30
  /-- The names of the loggers that records have been given to. -/
  named : List Text := []

namespace Logger

/-- The name of the logger. -/
def rootName : Text := "taurus"

/-- The stream that is written to where none is given. -/
def standardError : Text := "stderr"

/-- Adds a handler that was not installed by a configuration. -/
def addForeign (l : Logger) (name : Text) : Logger :=
  { l with handlers := l.handlers ++ [.foreign name] }

/-- The least level of records that are written. -/
def effectiveLevel (l : Logger) : Int := if l.level = 0 then l.inherited else l.level

/-- The names before the dots of a name that is given backwards, the longest first. The code point
before a dot that has been found is not looked at again. -/
def namesBefore : Text → List Text
  | [] => []
  | [_] => []
  | c :: d :: rest =>
    if c = CodePoint.ofChar '.' then (d :: rest).reverse :: namesBefore rest
      else namesBefore (d :: rest)

/-- The names of the loggers that may be above one, the nearest first. -/
def outerNames (name : Text) : List Text := namesBefore name.reverse

theorem length_lt_of_mem_namesBefore {t name : Text} (h : name ∈ namesBefore t) :
    name.length < t.length := by
  fun_induction namesBefore t with
  | case1 => cases h
  | case2 => cases h
  | case3 d rest ih =>
    rcases List.mem_cons.1 h with rfl | h
    · simp
    · have := ih h
      simp only [List.length_cons]
      omega
  | case4 c d rest hc ih =>
    have := ih h
    simp only [List.length_cons] at this ⊢
    omega

/-- The name of the logger right above one, if there is any below the topmost. -/
def outer? (l : Logger) (name : Text) : Option Text :=
  (outerNames name).find? fun n => n == rootName || l.named.contains n

theorem length_lt_of_outer? {l : Logger} {name outer : Text} (h : l.outer? name = some outer) :
    outer.length < name.length := by
  have hmem : outer ∈ namesBefore name.reverse := List.mem_of_find?_eq_some h
  have hlt := length_lt_of_mem_namesBefore hmem
  rwa [List.length_reverse] at hlt

/-- Whether a logger of the given name is the logger or one below it. -/
def covers (l : Logger) (name : Text) : Bool :=
  if name = rootName then true
  else
    match _h : l.outer? name with
    | none => false
    | some outer => covers l outer
termination_by name.length
decreasing_by exact length_lt_of_outer? _h

/-- Whether a record is written at all. One whose level is not positive never is. -/
def accepts (l : Logger) (r : LogRecord) : Bool :=
  l.covers r.logger && 0 < r.level && l.effectiveLevel ≤ r.level

/-- Writes to a stream. -/
def write (stream line : Text) : List (Text × Text) → List (Text × Text)
  | [] => [(stream, line)]
  | (s, t) :: rest =>
    if s = stream then (s, t ++ line) :: rest else (s, t) :: write stream line rest

/-- What has been written to a stream. -/
def contents (l : Logger) (stream : Text) : Text := (l.streams.lookup stream).getD []

/-- Puts a handler for the given level in place of the one installed before. -/
def configure (l : Logger) (stream : Text) (level : Option Int) : Logger :=
  let others := l.handlers.filter fun h => !h.isOwn
  let streams := write stream [] l.streams
  match level with
  | none => { l with handlers := others ++ [.silent], streams }
  | some level =>
    { l with handlers := others ++ [.stream stream], level, propagate := false, streams }

/-- Configures the logger for the given level, or else the one that the environment asks for, and
for the given stream, or else the standard error. -/
def setUp (l : Logger) (env : Environment) (level : Option Int) (stream : Option Text) : Logger :=
  l.configure (stream.getD standardError) (level.or (env.logLevel none))

/-- Gives a record to one handler. -/
def handle (r : LogRecord) (streams : List (Text × Text)) : LogHandler → List (Text × Text)
  | .stream name => write name r.line streams
  | _ => streams

/-- Logs a record. Giving it to a logger brings that one about. -/
def log (l : Logger) (r : LogRecord) : Logger :=
  { l with
    streams := if l.accepts r then l.handlers.foldl (handle r) l.streams else l.streams
    named := if l.named.contains r.logger then l.named else r.logger :: l.named }

end Logger

end CallAudit
