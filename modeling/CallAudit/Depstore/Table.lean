import CallAudit.Number.Binary64
import CallAudit.Text.Utf8

/-!
# Tables

A table holds one cell under each key. Rows are kept in ascending order of their keys: texts before
byte sequences, both compared byte by byte from their start on. The library stores encoded records
under textual keys; anything else comes from outside, also texts that are not UTF-8, which nobody
can read.
-/

namespace CallAudit

/-- A text in a table that is not UTF-8. -/
structure UnreadableText where
  /-- The name of the column that it stands in. -/
  column : Text
  bytes : List UInt8
deriving DecidableEq

namespace UnreadableText

/-- The most code points of a message about an unreadable text. -/
def maxLength : Nat := 198

/-- A byte in a message: those beyond ASCII are replaced. -/
def shownByte (b : UInt8) : CodePoint := CodePoint.ofNat (if b < 0x80 then b.toNat else 0xfffd)

/-- The message about an unreadable text, which shows its bytes up to the first that is zero. -/
def message (u : UnreadableText) : Text :=
  ("Could not decode to UTF-8 column '" ++ u.column ++ "' with text '" ++
    (u.bytes.takeWhile (· != 0)).map shownByte ++ Text.ofString "'").take maxLength

end UnreadableText

/-- A key of a table. -/
inductive TableKey
  /-- A text, given by its bytes, which need not be UTF-8. -/
  | textual (bytes : List UInt8)
  | blob (bytes : List UInt8)
deriving DecidableEq

namespace TableKey

/-- The key that is the given text. -/
def text (t : Text) : TableKey := .textual (t.flatMap Utf8.encodePoint)

/-- The order of keys. -/
def lt : TableKey → TableKey → Bool
  | .textual a, .textual b => decide (a < b)
  | .textual _, .blob _ => true
  | .blob _, .textual _ => false
  | .blob a, .blob b => decide (a < b)

/-- The name of the column of keys. -/
def column : Text := "key"

/-- A key as a text; a byte sequence is shown in quotes. -/
def read : TableKey → Except UnreadableText Text
  | .textual bytes => (Utf8.decode bytes).mapError fun _ => { column, bytes }
  | .blob bytes => .ok (Text.quotedBytes bytes)

theorem lt_trans {a b c : TableKey} (hab : a.lt b = true) (hbc : b.lt c = true) :
    a.lt c = true := by
  cases a <;> cases b <;> cases c <;>
    simp only [lt, decide_eq_true_eq, Bool.false_eq_true] at hab hbc ⊢
  · exact List.lt_trans hab hbc
  · exact List.lt_trans hab hbc

/-- Of two keys one comes first. -/
theorem lt_of_not_lt {a b : TableKey} (hne : a ≠ b) (h : ¬ b.lt a = true) : a.lt b = true := by
  cases a with
  | textual a =>
    cases b with
    | textual b =>
      simp only [lt, decide_eq_true_eq] at h ⊢
      exact Decidable.byContradiction fun hn =>
        hne (congrArg textual (List.le_antisymm (List.not_lt.1 h) (List.not_lt.1 hn)))
    | blob b => rfl
  | blob a =>
    cases b with
    | textual b => exact absurd rfl h
    | blob b =>
      simp only [lt, decide_eq_true_eq] at h ⊢
      exact Decidable.byContradiction fun hn =>
        hne (congrArg blob (List.le_antisymm (List.not_lt.1 h) (List.not_lt.1 hn)))

theorem lt_irrefl (a : TableKey) : ¬ a.lt a = true := by
  cases a with
  | textual a =>
    rw [lt, decide_eq_true_eq]
    exact List.lt_irrefl a
  | blob a =>
    rw [lt, decide_eq_true_eq]
    exact List.lt_irrefl a

end TableKey

/-- What is stored under a key. -/
inductive Cell
  /-- A text, given by its bytes, which need not be UTF-8. -/
  | text (bytes : List UInt8)
  | blob (bytes : List UInt8)
  | int (i : Int)
  | float (x : Binary64)
deriving DecidableEq

/-- The name of the column of cells. -/
def Cell.column : Text := "value"

theorem TableKey.ascending_nil :
    ([] : List (TableKey × Cell)).Pairwise fun a b => a.1.lt b.1 = true := List.Pairwise.nil

/-- A table with its rows in ascending order of their keys, so that no key occurs twice. -/
structure Table where
  rows : List (TableKey × Cell) := []
  ascending : rows.Pairwise (fun a b => a.1.lt b.1 = true) := by exact TableKey.ascending_nil
deriving DecidableEq

namespace Table

/-- Rows with a cell put under a key, in place of the one before. -/
def putRow (key : TableKey) (cell : Cell) : List (TableKey × Cell) → List (TableKey × Cell)
  | [] => [(key, cell)]
  | (k, c) :: rest =>
    if k = key then (key, cell) :: rest
    else if key.lt k then (key, cell) :: (k, c) :: rest
    else (k, c) :: putRow key cell rest

theorem mem_putRow {key : TableKey} {cell : Cell} {row : TableKey × Cell}
    {rows : List (TableKey × Cell)} (h : row ∈ putRow key cell rows) :
    row = (key, cell) ∨ row ∈ rows := by
  induction rows with
  | nil => exact .inl (List.mem_singleton.1 h)
  | cons first rest ih =>
    obtain ⟨k, c⟩ := first
    rw [putRow] at h
    split at h
    · exact (List.mem_cons.1 h).imp_right (List.mem_cons_of_mem _)
    · split at h
      · exact List.mem_cons.1 h
      · rcases List.mem_cons.1 h with h | h
        · exact .inr (h ▸ List.mem_cons_self)
        · exact (ih h).imp_right (List.mem_cons_of_mem _)

theorem ascending_putRow (key : TableKey) (cell : Cell) {rows : List (TableKey × Cell)}
    (h : rows.Pairwise fun a b => a.1.lt b.1 = true) :
    (putRow key cell rows).Pairwise fun a b => a.1.lt b.1 = true := by
  induction rows with
  | nil => exact List.pairwise_singleton _ _
  | cons first rest ih =>
    obtain ⟨k, c⟩ := first
    obtain ⟨hfirst, hrest⟩ := List.pairwise_cons.1 h
    rw [putRow]
    split
    · next hk => exact List.pairwise_cons.2 ⟨fun row hrow => hk ▸ hfirst row hrow, hrest⟩
    · next hk =>
      split
      · next hlt =>
        refine List.pairwise_cons.2 ⟨fun row hrow => ?_, h⟩
        rcases List.mem_cons.1 hrow with rfl | hrow
        · exact hlt
        · exact TableKey.lt_trans hlt (hfirst row hrow)
      · next hlt =>
        refine List.pairwise_cons.2 ⟨fun row hrow => ?_, ih hrest⟩
        rcases mem_putRow hrow with rfl | hrow
        · exact TableKey.lt_of_not_lt hk hlt
        · exact hfirst row hrow

/-- Puts a cell under a key. -/
def put (t : Table) (key : TableKey) (cell : Cell) : Table :=
  { rows := putRow key cell t.rows, ascending := ascending_putRow key cell t.ascending }

/-- Removes the row of a key. -/
def delete (t : Table) (key : TableKey) : Table :=
  { rows := t.rows.filter (·.1 != key), ascending := t.ascending.filter _ }

/-- The cell under a key. -/
def get? (t : Table) (key : TableKey) : Option Cell := t.rows.lookup key

/-- The number of rows. -/
def size (t : Table) : Nat := t.rows.length

theorem lookup_putRow (key other : TableKey) (cell : Cell) (rows : List (TableKey × Cell)) :
    (putRow key cell rows).lookup other = if other = key then some cell else rows.lookup other := by
  induction rows with
  | nil => by_cases h : other = key <;> simp [putRow, List.lookup_cons, h, beq_eq_false_iff_ne.2]
  | cons row rest ih =>
    obtain ⟨k, c⟩ := row
    by_cases hk : k = key
    · subst hk
      by_cases h : other = k <;> simp [putRow, List.lookup_cons, h, beq_eq_false_iff_ne.2]
    · by_cases hl : key.lt k = true
      · by_cases h : other = key <;>
          simp [putRow, List.lookup_cons, hk, hl, h, beq_eq_false_iff_ne.2]
      · by_cases h : other = k
        · subst h
          simp [putRow, hk, hl]
        · simp [putRow, List.lookup_cons, hk, hl, beq_eq_false_iff_ne.2 h, ih]

theorem get?_put (t : Table) (key other : TableKey) (cell : Cell) :
    (t.put key cell).get? other = if other = key then some cell else t.get? other :=
  lookup_putRow key other cell t.rows

end Table

end CallAudit
