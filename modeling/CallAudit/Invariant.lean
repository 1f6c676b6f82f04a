import CallAudit.Value.Shown

/-!
# Broken invariants

Some situations cannot arise as long as the library is used as intended: a handle that belongs to no
node, a list that cannot be ordered, a path that is not unwound. When one arises all the same, it is
reported with a reason and with the context in which it was found.
-/

namespace CallAudit

/-- A broken invariant with the context in which it was found. -/
structure BrokenInvariant where
  reason : Text
  context : List (Text × Value)

namespace BrokenInvariant

/-- A value in a context: texts, numbers, truth values and null stand for themselves, everything
else is shown as a text. -/
def contextValue : Value → Except WriteFault Value
  | .null => .ok .null
  | .bool b => .ok (.bool b)
  | .int i => .ok (.int i)
  | .float x => .ok (.float x)
  | .text t => .ok (.text t)
  | v => (v.shown Value.shownRoom).map .text

/-- A broken invariant; without a reason a general one is given. -/
def of (reason : Text) (context : List (Text × Value)) : BrokenInvariant :=
  { reason := if reason.isEmpty then "never() marker reached" else reason, context }

/-- The name of the context entry that is a reason. -/
def reasonName : Text := "reason"

/-- A reason as a text; one that is void is none. -/
def reasonText (v : Value) : Except WriteFault Text :=
  if v.isVoid then .ok [] else v.name Value.shownRoom

/-- A broken invariant with whatever context. -/
def within (reason : Text) (context : List (Text × Value)) : Except WriteFault BrokenInvariant := do
  let context ← context.mapM fun (k, v) => (contextValue v).map fun v => (k, v)
  return of reason context

/-- A broken invariant as it is marked in place: an entry of the context that is named `reason` is
the reason. A mark with two reasons is none. -/
def mark (reason : Option Value) (context : List (Text × Value)) :
    Except WriteFault (Option BrokenInvariant) :=
  match reason, context.find? (·.1 == reasonName) with
  | some _, some _ => .ok none
  | none, none => (within [] context).map some
  | some v, none => do
    let reason ← reasonText v
    return some (← within reason context)
  | none, some (_, v) => do
    let reason ← reasonText v
    return some (← within reason (context.filter (·.1 != reasonName)))

/-- A list given by `source` cannot be ordered. -/
def notOrderable (source error : Text) : BrokenInvariant :=
  of "carrier is not orderable" [("source", .text source), ("error", .text error)]

end BrokenInvariant

end CallAudit
