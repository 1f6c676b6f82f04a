import CallAudit.Text.Decimal

/-!
# Records

The facts that an extraction step delivers about a program: which definitions are marked, and which
calls a function makes. A marking belongs to a definition; a call names an instantiation, so its
callee carries the type arguments in angle brackets.
-/

namespace CallAudit

/-- A line of a source file. -/
structure SourceLocation where
  file : Text
  line : Int
deriving DecidableEq

/-- The location as `file:line`, unless its line is too long to be written out. -/
def SourceLocation.shown (l : SourceLocation) : Except WriteFault Text :=
  (Text.writeInt l.line).map fun line => l.file ++ ":" ++ line

/-- The audit roles of a definition. -/
structure Marking where
  /-- The group whose escort a caller needs. -/
  requiresAudit : Option Text := none
  /-- The group that the definition escorts. -/
  audited : Option Text := none
  /-- Whether audits start here. -/
  isEntryPoint : Bool := false
deriving DecidableEq

namespace Marking

/-- A marking says something when it has at least one role. -/
def isAnnotated (m : Marking) : Bool :=
  m.isEntryPoint || m.requiresAudit.isSome || m.audited.isSome

/-- Folds a later marking of the same definition into an earlier one: its groups replace those given
before, and an entry point stays one. -/
def merge (m later : Marking) : Marking :=
  { requiresAudit := later.requiresAudit <|> m.requiresAudit
    audited := later.audited <|> m.audited
    isEntryPoint := m.isEntryPoint || later.isEntryPoint }

end Marking

/-- A marking with the place where it was made. -/
structure MarkedItem where
  marking : Marking
  location : SourceLocation
deriving DecidableEq

/-- A call site in the body of a function. -/
structure CallEdge where
  callee : Text
  /-- Whether the call is made by code that the compiler supplies. -/
  isLangItem : Bool := false
  typeParams : List Text := []
  location : SourceLocation
deriving DecidableEq

/-- The bracket that opens the type arguments of a name. -/
def openBracket : CodePoint := CodePoint.ofChar '<'

/-- The name of the instantiation that is called: a callee that has type arguments already is kept,
any other gets those of the call, each followed by a comma. -/
def CallEdge.calleeName (e : CallEdge) : Text :=
  if e.callee.contains openBracket then e.callee
  else
    e.callee ++ openBracket ::
      (e.typeParams.flatMap (· ++ [CodePoint.ofChar ',']) ++ [CodePoint.ofChar '>'])

/-- The name of the definition behind a name, that is the name without type arguments. -/
def definitionName (name : Text) : Text := name.takeWhile (· != openBracket)

/-- A line of a markings file. -/
structure MarkingRecord where
  name : Text
  marking : Marking
  location : SourceLocation
deriving DecidableEq

/-- A line of a call-edges file. -/
structure CallRecord where
  caller : Text
  edges : List CallEdge := []
deriving DecidableEq

end CallAudit
