import CallAudit.Command.Closeness
import CallAudit.Text.Escaped
import CallAudit.Text.System

/-!
# Arguments

The arguments of a command are options, with or without a value. A value is the next argument or
follows an equals sign. Two dashes end the options.

A message repeats what was typed with its control characters escaped.
-/

namespace CallAudit

/-- An option of a command. -/
structure OptionSpec where
  name : Text
  takesValue : Bool
  isPath : Bool := false

/-- What is wrong with the arguments. -/
inductive UsageProblem
  | noSuchOption (name : Text) (suggestions : List Text)
  | needsArgument (option : Text)
  | takesNoValue (option : Text)
  | extraArguments (arguments : List Text)
  | missingCommand
  | noSuchCommand (name : Text)
  | invalidValue (reason : Text)
  | unusablePath (option : Text) (fault : Text.SystemFault)
deriving DecidableEq

namespace UsageProblem

/-- The problem in words. -/
def statement : UsageProblem → Text
  | .noSuchOption name _ => "No such option: " ++ Text.controlsEscaped name
  | .needsArgument option => "Option " ++ Text.quoted option ++ " requires an argument."
  | .takesNoValue option => "Option " ++ Text.quoted option ++ " does not take a value."
  | .extraArguments as =>
    "Got unexpected extra argument(s) (" ++ Text.controlsEscaped (Text.join " " as) ++ ")"
  | .missingCommand => "Missing command."
  | .noSuchCommand name => "No such command " ++ Text.quoted name ++ "."
  | .invalidValue reason => "Invalid value: " ++ reason
  | .unusablePath option fault =>
    "Invalid value for " ++ Text.quoted option ++ ": Value error, " ++ fault.message

/-- The known options that are close to an unknown one, in words. -/
def optionHint : UsageProblem → Text
  | .noSuchOption _ (t :: ts) =>
    " (Possible options: " ++ Text.join ", " ((t :: ts).mergeSort Text.le) ++ ")"
  | _ => []

end UsageProblem

/-- Arguments that cannot be followed. -/
structure UsageFault where
  problem : UsageProblem
  /-- The commands that may have been meant. -/
  meant : List Text := []
deriving DecidableEq

namespace UsageFault

/-- The full stop. -/
def stop : CodePoint := CodePoint.ofChar '.'

/-- A statement followed by the commands that may have been meant. -/
def withCommands (statement : Text) : List Text → Text
  | [] => statement
  | ts =>
    (statement.reverse.dropWhile (· == stop)).reverse ++ ". Did you mean " ++
      Text.join ", " (ts.map Text.quoted) ++ "?"

/-- The message for arguments that cannot be followed. -/
def message (f : UsageFault) : Text :=
  withCommands f.problem.statement f.meant ++ f.problem.optionHint

end UsageFault

/-- Options in the order in which they were given; one without a value has an empty one. -/
abbrev GivenOptions := List (Text × Text)

namespace GivenOptions

/-- The value of an option; the last occurrence counts. -/
def value? (given : GivenOptions) (name : Text) : Option Text := given.reverse.lookup name

/-- Whether an option was given. -/
def has (given : GivenOptions) (name : Text) : Bool := (given.value? name).isSome

/-- A switch with an option for either position; the last occurrence counts. -/
def switch? (given : GivenOptions) (on off : Text) : Option Bool :=
  (given.reverse.find? fun (n, _) => n == on || n == off).map fun (n, _) => n == on

/-- The options that were given, each with the value that counts, in the order of their first
occurrences. -/
def settled (given : GivenOptions) : GivenOptions :=
  (given.foldl (fun names (n, _) => if names.contains n then names else names ++ [n]) []).filterMap
    fun n => (given.value? n).map fun v => (n, v)

end GivenOptions

namespace OptionSpec

/-- The dash. -/
def dash : CodePoint := CodePoint.ofChar '-'

/-- The equals sign. -/
def equals : CodePoint := CodePoint.ofChar '='

/-- Whether an argument is an option: a dash alone is not. -/
def isOption (arg : Text) : Bool := arg.head? == some dash && 1 < arg.length

/-- The part of an argument before the first equals sign, and the part after it. -/
def splitValue (arg : Text) : Text × Option Text :=
  let name := arg.takeWhile (· != equals)
  match arg.drop name.length with
  | [] => (name, none)
  | _ :: value => (name, some value)

/-- The problem of an unknown option; an option with a single dash is named by its first letter. -/
def unknown (specs : List OptionSpec) (arg name : Text) : UsageProblem :=
  if arg.take 2 = [dash, dash] then
    .noSuchOption name (Closeness.suggestions name (specs.map (·.name)))
  else .noSuchOption (arg.take 2) []

/-- What an argument that is an option asks for. -/
inductive Request
  /-- The option is complete. -/
  | given (name value : Text)
  /-- The option takes the next argument as its value. -/
  | awaiting (name : Text)

/-- Looks up an option. -/
def request (specs : List OptionSpec) (arg : Text) : Except UsageProblem Request :=
  let (name, value) := splitValue arg
  match specs.find? (·.name == name) with
  | none => .error (unknown specs arg name)
  | some spec =>
    match spec.takesValue, value with
    | true, some v => .ok (.given name v)
    | true, none => .ok (.awaiting name)
    | false, none => .ok (.given name [])
    | false, some _ => .error (.takesNoValue name)

/-- Puts an option in front of those that follow. -/
def andThen {ε : Type} (name value : Text) (r : Except ε (GivenOptions × List Text)) :
    Except ε (GivenOptions × List Text) :=
  r.map fun (given, rest) => ((name, value) :: given, rest)

/-- Reads options; gives the arguments that are none, too. -/
def readAll (specs : List OptionSpec) : List Text → Except UsageProblem (GivenOptions × List Text)
  | [] => .ok ([], [])
  | arg :: rest =>
    if arg = [dash, dash] then .ok ([], rest)
    else if isOption arg then
      match request specs arg with
      | .error e => .error e
      | .ok (.given name value) => andThen name value (readAll specs rest)
      | .ok (.awaiting name) =>
        match rest with
        | [] => .error (.needsArgument name)
        | value :: rest => andThen name value (readAll specs rest)
    else (readAll specs rest).map fun (given, others) => (given, arg :: others)

/-- Reads the options in front of other arguments and gives what follows them. An option that cannot
be read comes with the arguments after it. -/
def readLeading (specs : List OptionSpec) :
    List Text → Except (UsageProblem × List Text) (GivenOptions × List Text)
  | [] => .ok ([], [])
  | arg :: rest =>
    if arg = [dash, dash] then .ok ([], rest)
    else if isOption arg then
      match request specs arg with
      | .error e => .error (e, rest)
      | .ok (.given name value) => andThen name value (readLeading specs rest)
      | .ok (.awaiting name) =>
        match rest with
        | [] => .error (.needsArgument name, [])
        | value :: rest => andThen name value (readLeading specs rest)
    else .ok ([], arg :: rest)

/-- The problem of the first given path that cannot be handed to the file system. -/
def pathProblem? (specs : List OptionSpec) (given : GivenOptions) : Option UsageProblem :=
  given.settled.findSome? fun (name, value) =>
    if specs.any (fun spec => spec.name == name && spec.isPath) then
      (Text.systemFault? value).map (.unusablePath name)
    else none

end OptionSpec

end CallAudit
