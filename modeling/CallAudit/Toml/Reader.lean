import CallAudit.Toml.Node
import CallAudit.Toml.Scalar

/-!
# Reading TOML

A document is read statement by statement, and each statement takes effect before the next one is
read, so that the first fault decides. Values are read with the list of containers that are still
open.
-/

namespace CallAudit.Toml

/-! ## Values -/

/-- A container that is still open. -/
inductive OpenContainer
  | array (items : List Value)
  /-- An inline table and the key whose value comes next. -/
  | table (entries : Entries) (key : List Text)

/-- What a container adds to the depth. -/
def OpenContainer.weight : OpenContainer → Nat
  | .array _ => 2
  | .table .. => 3

/-- The depth of open containers. -/
def depth : List OpenContainer → Nat
  | [] => 0
  | c :: outer => c.weight + depth outer

/-- The greatest depth of open containers. -/
def maxDepth : Nat := 960

/-- How far a value has been read. -/
inductive Progress
  | done (v : Value) (rest : Text)
  /-- A value is expected in the innermost of the open containers. -/
  | expected (containers : List OpenContainer) (rest : Text)

/-- Reads a key, the equals sign and the blanks around them. -/
def readAssignment (t : Text) : Except Fault (List Text × Text) :=
  match readKey t with
  | some (key, c :: rest) => if c.val = 0x3d then .ok (key, skipBlanks rest) else .error .malformed
  | _ => .error .malformed

/-- Delivers a value to the innermost open container, which it may close. -/
def deliver (v : Value) (t : Text) : List OpenContainer → Except Fault Progress
  | [] => .ok (.done v t)
  | .array items :: outer =>
    match skipLines false t with
    | some (c :: rest) =>
      if c.val = 0x5d then deliver (.list (items ++ [v])) rest outer
      -- a comma, after which an array may end
      else if c.val = 0x2c then
        match skipLines false rest with
        | some (d :: rest') =>
          if d.val = 0x5d then deliver (.list (items ++ [v])) rest' outer
          else .ok (.expected (.array (items ++ [v]) :: outer) (d :: rest'))
        | _ => .error .malformed
      else .error .malformed
    | _ => .error .malformed
  | .table entries key :: outer =>
    match Node.assign 0 v key entries with
    | none => .error .malformed
    | some entries =>
      match skipBlanks t with
      | c :: rest =>
        if c.val = 0x7d then deliver (.map (Node.entryValues entries)) rest outer
        -- a comma, after which an inline table has to go on
        else if c.val = 0x2c then
          match readAssignment (skipBlanks rest) with
          | .ok (key, rest) => .ok (.expected (.table entries key :: outer) rest)
          | .error e => .error e
        else .error .malformed
      | [] => .error .malformed

/-- Reads the start of a value: a container is opened, a scalar is delivered. -/
def beginValue (containers : List OpenContainer) (t : Text) : Except Fault Progress :=
  match t with
  | [] => .error .malformed
  | c :: rest =>
    -- an opening bracket
    if c.val = 0x5b then
      match skipLines false rest with
      | some (d :: rest') =>
        if d.val = 0x5d then deliver (.list []) rest' containers
        else .ok (.expected (.array [] :: containers) (d :: rest'))
      | _ => .error .malformed
    -- an opening brace
    else if c.val = 0x7b then
      match skipBlanks rest with
      | d :: rest' =>
        if d.val = 0x7d then deliver (.map []) rest' containers
        else
          match readAssignment (d :: rest') with
          | .ok (key, rest) => .ok (.expected (.table [] key :: containers) rest)
          | .error e => .error e
      | [] => .error .malformed
    else
      match readScalar t with
      | .ok (v, rest) => deliver v rest containers
      | .error e => .error e

/-- Reads on until the outermost value is done. Every round reads at least one character. -/
def advance : (budget : Nat) → List OpenContainer → Text → Except Fault (Value × Text)
  | 0, _, _ => .error .malformed
  | budget + 1, containers, t =>
    if maxDepth < depth containers then .error .tooDeep
    else
      match beginValue containers t with
      | .ok (.done v rest) => .ok (v, rest)
      | .ok (.expected containers rest) => advance budget containers rest
      | .error e => .error e

/-- Reads a value. -/
def readValue (t : Text) : Except Fault (Value × Text) := advance (t.length + 1) [] t

/-! ## Documents -/

/-- A document that has been read in part. -/
structure Document where
  entries : Entries := []
  /-- The header of the current part. -/
  header : List Text := []
  /-- The number of the current part. -/
  part : Nat := 0

/-- Takes a possible result as one that may be a fault of notation. -/
def wellFormed {α : Type} : Option α → Except Fault α
  | some a => .ok a
  | none => .error .malformed

namespace Document

/-- Gives a key of the current part a value. -/
def assign (d : Document) (key : List Text) (v : Value) : Option Document :=
  (Node.alter (Node.assign d.part v key) d.header d.entries).map fun entries => { d with entries }

/-- Starts a part by a change at the end of its header. -/
def startPart (d : Document) (header : List Text) (change : Nat → Text → Entries → Option Entries) :
    Option Document :=
  match header.getLast? with
  | none => none
  | some last =>
    (Node.alter (change (d.part + 1) last) header.dropLast d.entries).map fun entries =>
      { entries, header, part := d.part + 1 }

/-- Reads a header after its opening brackets. -/
def readHeader (d : Document) (closing : Text) (change : Nat → Text → Entries → Option Entries)
    (t : Text) :
    Option (Document × Text) := do
  let (header, rest) ← readKey (skipBlanks t)
  let rest ← Text.after? closing rest
  return (← d.startPart header change, rest)

/-- Reads a statement: a key with its value, or a header. -/
def readStatement (d : Document) (t : Text) : Except Fault (Document × Text) :=
  match t with
  | [] => .ok (d, [])
  | c :: rest =>
    if startsKey c then do
      let (key, rest) ← readAssignment t
      let (v, rest) ← readValue rest
      return (← wellFormed (d.assign key v), rest)
    else if c.val = 0x5b then
      -- two brackets add a table to a list of tables, one bracket opens a table
      match Text.after? "[" rest with
      | some rest => wellFormed (d.readHeader "]]" (fun _ => Node.appendTable) rest)
      | none => wellFormed (d.readHeader "]" Node.openTable rest)
    -- a line without a statement
    else if c.val = 0x23 || isLineEnd c then .ok (d, t)
    else .error .malformed

/-- Reads the statements of a document; every round ends a line. -/
def readAll : (budget : Nat) → Document → Text → Except Fault Document
  | 0, d, _ => .ok d
  | budget + 1, d, t =>
    match d.readStatement (skipBlanks t) with
    | .error e => .error e
    | .ok (d, rest) =>
      match skipComment (skipBlanks rest) with
      | none => .error .malformed
      | some [] => .ok d
      | some (c :: rest) => if isLineEnd c then readAll budget d rest else .error .malformed

end Document

/-- Reads a document whose lines end at LF; gives the entries of its table. -/
def read (t : Text) : Except Fault (List (Value × Value)) :=
  (Document.readAll (t.length + 1) {} t).map fun d => Node.entryValues d.entries

end CallAudit.Toml
