import CallAudit.Number.Shortest

/-!
# JSON values

Integers are kept apart from floating-point numbers and are unbounded. An object keeps its fields in
order of first appearance, and a repeated name keeps the last value.
-/

namespace CallAudit

/-- A JSON value. -/
inductive Json
  | null
  | bool (b : Bool)
  | int (i : Int)
  | float (x : Binary64)
  | str (t : Text)
  | arr (items : List Json)
  | obj (fields : List (Text × Json))

namespace Json

/-- The fields of an object after giving `name` a value: in place if the name is there, else at the
end. -/
def setField {α : Type} (name : Text) (value : α) : List (Text × α) → List (Text × α)
  | [] => [(name, value)]
  | (n, v) :: rest => if n = name then (n, value) :: rest else (n, v) :: setField name value rest

/-- The value under a name. -/
def lookup? {α : Type} (name : Text) : List (Text × α) → Option α
  | [] => none
  | (n, v) :: rest => if n = name then some v else lookup? name rest

@[simp] theorem lookup?_setField {α : Type} (name other : Text) (value : α)
    (fields : List (Text × α)) :
    lookup? other (setField name value fields) =
      if other = name then some value else lookup? other fields := by
  induction fields with
  | nil => simp [setField, lookup?, eq_comm]
  | cons field rest ih =>
    by_cases h : field.1 = name
    · by_cases ho : other = name
      · simp [setField, lookup?, h, ho]
      · have hn : ¬ name = other := fun e => ho e.symm
        simp [setField, lookup?, h, ho, hn]
    · by_cases hf : field.1 = other
      · have ho : ¬ other = name := fun e => h (hf.trans e)
        simp [setField, lookup?, hf, ho]
      · simp [setField, lookup?, h, hf, ih]

theorem mem_setField {α : Type} {name : Text} {value : α} {fields : List (Text × α)}
    {field : Text × α} (h : field ∈ setField name value fields) :
    field = (name, value) ∨ field ∈ fields := by
  induction fields with
  | nil => exact .inl (List.mem_singleton.1 h)
  | cons first rest ih =>
    obtain ⟨n, v⟩ := first
    rw [setField] at h
    split at h
    · next hn =>
      rcases List.mem_cons.1 h with h | h
      · exact .inl (hn ▸ h)
      · exact .inr (List.mem_cons_of_mem _ h)
    · rcases List.mem_cons.1 h with h | h
      · exact .inr (h ▸ List.mem_cons_self)
      · exact (ih h).imp_right (List.mem_cons_of_mem _)

/-- The field of an object, absent for any other value. -/
def field? (name : Text) : Json → Option Json
  | .obj fields => lookup? name fields
  | _ => none

end Json

end CallAudit
