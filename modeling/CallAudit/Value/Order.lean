import CallAudit.Invariant
import CallAudit.Sorting.Basic
import CallAudit.Text.Lower
import CallAudit.Value.Shown

/-!
# Ordering values

Numbers are ordered by value, texts by code points, sequences of one kind lexicographically. Other
pairs have no order, and a list is refused as soon as two such elements meet in sorting.

Texts alone, or numbers alone if none of them is NaN, are in a total order: there is one way to sort
them that keeps equal elements in their order. For any other list the result depends on which
elements are compared, and that is left to merging runs.
-/

namespace CallAudit.Value

/-- Two values without an order, by their types. -/
structure Unordered where
  left : Text
  right : Text
deriving DecidableEq

/-- The message for two values without an order. -/
def Unordered.message (u : Unordered) : Text :=
  "'<' not supported between instances of '" ++ u.left ++ "' and '" ++ u.right ++ "'"

/-- The order of numbers. -/
def precedesNumber (v w : Value) : Except Unordered Bool :=
  match v.number?, w.number? with
  | some x, some y => .ok (Binary64.lt x y)
  | _, _ => .error ⟨v.typeName, w.typeName⟩

mutual

/-- Whether the first value is below the second. -/
def precedes : Value → Value → Except Unordered Bool
  | .text s, .text t => .ok (decide (s < t))
  | .list xs, .list ys => precedesItems xs ys
  | .tuple xs, .tuple ys => precedesItems xs ys
  | .bool a, w => precedesNumber (.bool a) w
  | .int a, w => precedesNumber (.int a) w
  | .float a, w => precedesNumber (.float a) w
  | v, w => .error ⟨v.typeName, w.typeName⟩
termination_by structural v => v

/-- Lexicographic order by the first items that differ. -/
def precedesItems : List Value → List Value → Except Unordered Bool
  | [], [] => .ok false
  | [], _ :: _ => .ok true
  | _ :: _, [] => .ok false
  | x :: xs, y :: ys => if same x y then precedesItems xs ys else precedes x y
termination_by structural xs => xs

end

/-! ## Sort keys -/

/-- What a list is sorted by. -/
inductive SortKey
  | whole
  | size
  | first
  | written
  | lower

/-- Why a list is not sorted. -/
inductive SortFault
  /-- Two elements without an order, or an element without the key. -/
  | notOrderable (error : Text)
  /-- The first item of an empty sequence was asked for. -/
  | noFirst (error : Text)
  /-- The entry under zero of a mapping without one was asked for. -/
  | noEntry
  /-- An element is no text and has no lower case. -/
  | noLower (type : Text)
  /-- A value that has no elements was given in place of a list. -/
  | noElements (type : Text)
  /-- An element is not written out. -/
  | unwritable (fault : WriteFault)

/-- The fault of a value to which the key does not apply. -/
def SortFault.notSubscriptable (v : Value) : SortFault :=
  .notOrderable ("'" ++ v.typeName ++ "' object is not subscriptable")

/-- The key of a value. -/
def SortKey.of (key : SortKey) (v : Value) : Except SortFault Value :=
  match key with
  | .whole => .ok v
  | .written => ((v.name shownRoom).map .text).mapError .unwritable
  | .size =>
    match v with
    | .text t => .ok (.int t.length)
    | .list xs => .ok (.int xs.length)
    | .tuple xs => .ok (.int xs.length)
    | .map es => .ok (.int es.length)
    | v => .error (.notOrderable ("object of type '" ++ v.typeName ++ "' has no len()"))
  | .first =>
    match v with
    | .text (c :: _) => .ok (.text [c])
    | .text [] => .error (.noFirst "string index out of range")
    | .list (x :: _) => .ok x
    | .list [] => .error (.noFirst "list index out of range")
    | .tuple (x :: _) => .ok x
    | .tuple [] => .error (.noFirst "tuple index out of range")
    | .map es =>
      match es.find? fun (k, _) => same k (.int 0) with
      | some (_, w) => .ok w
      | none => .error .noEntry
    | v => .error (.notSubscriptable v)
  | .lower =>
    match v with
    | .text t => .ok (.text (Text.lower t))
    | v => .error (.noLower v.typeName)

/-- The keys of all values, in order. -/
def SortKey.ofAll (key : SortKey) : List Value → Except SortFault (List (Value × Value))
  | [] => .ok []
  | v :: rest =>
    match key.of v with
    | .error e => .error e
    | .ok k =>
      match key.ofAll rest with
      | .error e => .error e
      | .ok ks => .ok ((k, v) :: ks)

/-- Whether a value is a text. -/
def isText : Value → Bool
  | .text _ => true
  | _ => false

/-- Whether a value is a number other than NaN. -/
def isOrderedNumber (v : Value) : Bool :=
  match v.number? with
  | some .nan => false
  | some _ => true
  | none => false

/-- Whether values are known to be in a total order. -/
def areTotallyOrdered (vs : List Value) : Bool := vs.all isText || vs.all isOrderedNumber

/-- Whether the first of two values may stand before the second. -/
def mayPrecede (v w : Value) : Bool :=
  match precedes w v with
  | .ok b => !b
  | .error _ => false

/-- Sorts pairs by their first parts. -/
def sortKeyed {α : Type} (falling : Bool) (keyed : List (Value × α)) :
    Except Unordered (List (Value × α)) :=
  if areTotallyOrdered (keyed.map (·.1)) then
    if falling then .ok (keyed.reverse.mergeSort fun a b => mayPrecede a.1 b.1).reverse
    else .ok (keyed.mergeSort fun a b => mayPrecede a.1 b.1)
  else Sorting.sortStable (fun a b => precedes a.1 b.1) falling keyed

/-- Sorts values by a key, or refuses them. -/
def sort (key : SortKey) (falling : Bool) (values : List Value) : Except SortFault (List Value) :=
  match key.ofAll values with
  | .error e => .error e
  | .ok keyed =>
    match sortKeyed falling keyed with
    | .error u => .error (.notOrderable u.message)
    | .ok sorted => .ok (sorted.map (·.2))

/-- The elements of a value that can be gone through: a mapping gives its keys. -/
def elements? : Value → Option (List Value)
  | .list xs => some xs
  | .tuple xs => some xs
  | .map es => some (es.map (·.1))
  | .text t => some (t.map fun c => .text [c])
  | _ => none

/-- Sorts the elements of a value by a key, or refuses them. -/
def sortElements (key : SortKey) (falling : Bool) (v : Value) : Except SortFault (List Value) :=
  match v.elements? with
  | none => .error (.noElements v.typeName)
  | some values => sort key falling values

/-- Why elements are not put in order for a source. -/
inductive OrderFault
  /-- They have no order, which breaks an invariant of the source. -/
  | broken (invariant : BrokenInvariant)
  /-- The elements or their keys cannot be had. -/
  | unavailable (fault : SortFault)

/-- Puts the elements of a value in the order of a key for a source, which is named if there is no
such order. -/
def sortFor (source : Text) (key : SortKey) (falling : Bool) (v : Value) :
    Except OrderFault (List Value) :=
  match sortElements key falling v with
  | .error (.notOrderable error) => .error (.broken (.notOrderable source error))
  | .error fault => .error (.unavailable fault)
  | .ok sorted => .ok sorted

end CallAudit.Value
