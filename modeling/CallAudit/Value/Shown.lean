import CallAudit.Text.Decimal
import CallAudit.Text.Quoted
import CallAudit.Value.Basic

/-!
# Values in messages

A value in a message is shown in one line: texts in quotes, sequences in brackets or parentheses,
mappings in braces. As the name of a field, a text stands for itself. A value is not shown if it
holds an integer with too many digits, or if it is nested more deeply than the call stack has room
for.
-/

namespace CallAudit.Value

/-- A truth value in a message. -/
def boolShown (b : Bool) : Text := if b then "True" else "False"

/-- Shown items between parentheses; a single one is followed by a comma. -/
def tupleShown (items : List Text) : Text :=
  match items with
  | [t] => "(" ++ t ++ ",)"
  | _ => "(" ++ Text.join ", " items ++ ")"

mutual

/-- A value as a message shows it, with room for so many levels of containers. -/
def shown : (room : Nat) → Value → Except WriteFault Text
  | _, .null => .ok "None"
  | _, .bool b => .ok (boolShown b)
  | _, .int i => Text.writeInt i
  | _, .float x => .ok (x.text "inf" "nan")
  | _, .text t => .ok (Text.quoted t)
  | _, .moment _ written => .ok written
  | room + 1, .list items => (shownItems room items).map fun ts => "[" ++ Text.join ", " ts ++ "]"
  | room + 1, .tuple items => (shownItems room items).map tupleShown
  | room + 1, .map entries =>
    (shownEntries room entries).map fun ts => "\x7b" ++ Text.join ", " ts ++ "\x7d"
  | 0, _ => .error .tooDeep
termination_by structural _ v => v

/-- Every item as a message shows it. -/
def shownItems : (room : Nat) → List Value → Except WriteFault (List Text)
  | _, [] => .ok []
  | room, v :: rest => do
    let t ← shown room v
    return t :: (← shownItems room rest)
termination_by structural _ items => items

/-- Every entry as a message shows it. -/
def shownEntries : (room : Nat) → List (Value × Value) → Except WriteFault (List Text)
  | _, [] => .ok []
  | room, entry :: rest => do
    let t ← shownEntry room entry
    return t :: (← shownEntries room rest)
termination_by structural _ entries => entries

/-- An entry as a message shows it. -/
def shownEntry : (room : Nat) → Value × Value → Except WriteFault Text
  | room, (k, v) => do
    let key ← shown room k
    return key ++ ": " ++ (← shown room v)
termination_by structural _ entry => entry

end

/-- A value as the name of a field, with room for so many levels of containers. -/
def name (room : Nat) : Value → Except WriteFault Text
  | .text t => .ok t
  | v => shown room v

/-- How many levels of containers the call stack has room for when a value is shown. -/
def shownRoom : Nat := 980

end CallAudit.Value
