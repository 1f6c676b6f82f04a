import CallAudit.Proofs.Loading
import CallAudit.Proofs.Numerals
import CallAudit.Proofs.SortedLists
import CallAudit.Value.Canonical

/-!
# Canonical forms

A payload has a canonical form if its containers are not nested more deeply than there is room, and
if its keys can be written out (`Value.Fits`). In a canonical form the names of every mapping ascend
and there are no tuples (`Value.Ordered`), and such values are their own canonical forms. It does
not show in which order the entries of a mapping were given, nor whether a sequence was a list or a
tuple (`Value.Rearranges`).

Keys that differ may have one name, such as the number one and the text `1`. The fields of a mapping
are sorted by their names before they are set in turn. Sorting keeps fields of one name in their
order, so of several entries with one name the last one counts (`Json.lookup?_orderedFields_last`),
and only for such entries does the order of a mapping matter (`Json.orderedFields_eq_of_perm`).
-/

namespace CallAudit

namespace Json

variable {α : Type} {done fields fields' : List (Text × α)}

open Value

/-! ## Fields that are set in turn -/

/-- Different fields that are set in turn stay as they are. -/
theorem foldl_setField (h : ((done ++ fields).map (·.1)).Nodup) :
    fields.foldl (fun done field => setField field.1 field.2 done) done = done ++ fields := by
  induction fields generalizing done with
  | nil => exact (List.append_nil done).symm
  | cons field fields ih =>
    have hfresh : field.1 ∉ done.map (·.1) := by
      rw [List.map_append, List.map_cons] at h
      exact fun hmem => (List.disjoint_of_nodup_append h) hmem List.mem_cons_self
    rw [List.foldl_cons, setField_of_not_mem hfresh, ih (by simpa using h), List.append_assoc,
      List.singleton_append]

theorem nodup_foldl_setField (h : (done.map (·.1)).Nodup) (fields : List (Text × α)) :
    ((fields.foldl (fun done field => setField field.1 field.2 done) done).map (·.1)).Nodup := by
  induction fields generalizing done with
  | nil => exact h
  | cons field fields ih => exact ih (nodup_setField h field.1 field.2)

/-- Fields that are set in turn are all that there is. -/
theorem mem_of_mem_foldl_setField {field : Text × α}
    (h : field ∈ fields.foldl (fun done field => setField field.1 field.2 done) done) :
    field ∈ done ++ fields := by
  induction fields generalizing done with
  | nil => simpa using h
  | cons first fields ih =>
    rcases List.mem_append.1 (ih h) with hdone | hrest
    · rcases mem_setField hdone with rfl | hdone
      · simp
      · simp [hdone]
    · simp [hrest]

/-- Under a name stands what was set last. -/
theorem lookup?_foldl_setField (done fields : List (Text × α)) (name : Text) :
    lookup? name (fields.foldl (fun done field => setField field.1 field.2 done) done) =
      (lookup? name fields.reverse).or (lookup? name done) := by
  induction fields generalizing done with
  | nil => rfl
  | cons field fields ih =>
    rw [List.foldl_cons, ih, lookup?_setField, List.reverse_cons, lookup?_append, Option.or_assoc]
    -- a field of this name hides those that were set before, a field of another name does nothing
    by_cases hname : field.1 = name
    · simp [lookup?, hname]
    · simp [lookup?, hname, Ne.symm hname]

/-- Only fields of a name matter for what stands under it. -/
theorem lookup?_filter (name : Text) (fields : List (Text × α)) :
    lookup? name (fields.filter fun field => field.1 == name) = lookup? name fields := by
  induction fields with
  | nil => rfl
  | cons field fields ih =>
    by_cases hname : field.1 = name
    · simp [lookup?, hname]
    · rw [List.filter_cons_of_neg (by simpa using hname), ih]
      simp [lookup?, hname]

theorem map_setField {β : Type} (f : α → β) (name : Text) (a : α) (fields : List (Text × α)) :
    (setField name a fields).map (fun field => (field.1, f field.2)) =
      setField name (f a) (fields.map fun field => (field.1, f field.2)) := by
  induction fields with
  | nil => rfl
  | cons field fields ih =>
    by_cases hname : field.1 = name
    · simp [setField, hname]
    · simp [setField, hname, ih]

/-! ## Fields in order -/

theorem nodup_orderedFields (fields : List (Text × α)) :
    ((orderedFields fields).map (·.1)).Nodup := by
  have hnil : (([] : List (Text × α)).map (·.1)).Nodup := List.nodup_nil
  exact nodup_foldl_setField hnil _

theorem mem_of_mem_orderedFields {field : Text × α} (h : field ∈ orderedFields fields) :
    field ∈ fields := by
  have hsorted := mem_of_mem_foldl_setField h
  rwa [List.nil_append, List.mem_mergeSort] at hsorted

/-- Values may be replaced before or after their fields are put in order. -/
theorem orderedFields_map {β : Type} (f : α → β) (fields : List (Text × α)) :
    orderedFields (fields.map fun field => (field.1, f field.2)) =
      (orderedFields fields).map fun field => (field.1, f field.2) := by
  have hsorted := List.map_mergeSort (r := fun a b => Text.le a.1 b.1)
    (s := fun a b => Text.le a.1 b.1) (f := fun field : Text × α => (field.1, f field.2))
      (l := fields)
    fun _ _ _ _ => rfl
  have hset (sorted done : List (Text × α)) :
      (sorted.map fun field => (field.1, f field.2)).foldl
          (fun done field => setField field.1 field.2 done)
            (done.map fun field => (field.1, f field.2)) =
        (sorted.foldl (fun done field => setField field.1 field.2 done) done).map
          fun field => (field.1, f field.2) := by
    induction sorted generalizing done with
    | nil => rfl
    | cons field sorted ih =>
      rw [List.map_cons, List.foldl_cons, List.foldl_cons, ← ih, map_setField]
  rw [orderedFields, ← hsorted]
  exact hset _ []

/-- Of fields with one name the last one counts. -/
theorem lookup?_orderedFields_last (fields : List (Text × α)) (name : Text) :
    lookup? name (orderedFields fields) = lookup? name fields.reverse := by
  -- sorting may move fields of other names past those of this name, but not these past each other
  have hstable :
      (fields.mergeSort fun a b => Text.le a.1 b.1).filter (fun field => field.1 == name) =
      fields.filter fun field => field.1 == name := by
    refine filter_mergeSort (fun a b c => Text.le_trans a.1 b.1 c.1)
      (fun a b => Text.le_total a.1 b.1) ?_
    intro a b ha hb
    rw [beq_iff_eq.1 ha, beq_iff_eq.1 hb, Text.le_iff]
    exact List.lt_irrefl name
  calc lookup? name (orderedFields fields)
      = lookup? name (fields.mergeSort fun a b => Text.le a.1 b.1).reverse :=
        (lookup?_foldl_setField [] _ name).trans (Option.or_none)
    _ = lookup? name fields.reverse := by
        rw [← lookup?_filter, List.filter_reverse, hstable, ← List.filter_reverse, lookup?_filter]

theorem lookup?_orderedFields (h : (fields.map (·.1)).Nodup) (name : Text) :
    lookup? name (orderedFields fields) = lookup? name fields :=
  (lookup?_orderedFields_last fields name).trans (Store.lastIn_of_nodup h name)

/-- Fields whose names ascend stay as they are. -/
theorem orderedFields_of_ascending (h : (fields.map (·.1)).Pairwise (· < ·)) :
    orderedFields fields = fields := by
  have hsorted : (fields.mergeSort fun a b => Text.le a.1 b.1) = fields :=
    List.mergeSort_of_pairwise ((List.pairwise_map.1 h).imp Text.le_of_lt)
  have hnodup : ((([] : List (Text × α)) ++ fields).map (·.1)).Nodup :=
    h.imp fun hlt => ne_of_lt hlt
  rw [orderedFields, hsorted]
  exact foldl_setField hnodup

end Json

namespace Value

variable {v w form : Value} {room : Nat}

/-! ## The parts of a payload -/

/-- A payload without parts. -/
inductive Leaf : Value → Prop
  | null : Leaf .null
  | bool (b : Bool) : Leaf (.bool b)
  | int (i : Int) : Leaf (.int i)
  | float (x : Binary64) : Leaf (.float x)
  | text (t : Text) : Leaf (.text t)
  | moment (kind : MomentKind) (written : Text) : Leaf (.moment kind written)

/-- A value without parts is its own form. -/
theorem Leaf.canonical_eq (h : Leaf v) (room : Nat) : canonical room v = .ok v := by
  cases h <;> cases room <;> rfl

theorem canonicalItems_eq_mapM (room : Nat) (items : List Value) :
    canonicalItems room items = items.mapM (canonical room) := by
  induction items with
  | nil => rfl
  | cons v items ih =>
    rw [canonicalItems, ih, List.mapM_cons]

theorem canonicalEntries_eq_mapM (room : Nat) (entries : List (Value × Value)) :
    canonicalEntries room entries = entries.mapM (canonicalEntry room) := by
  induction entries with
  | nil => rfl
  | cons entry entries ih =>
    rw [canonicalEntries, ih, List.mapM_cons]

/-- The form of a list has the forms of its items. -/
theorem canonical_list (room : Nat) (items : List Value) :
    canonical (room + 1) (.list items) = (items.mapM (canonical room)).map .list := by
  rw [canonical, canonicalItems_eq_mapM]

/-- A tuple has the form of the list of its items. -/
theorem canonical_tuple (room : Nat) (items : List Value) :
    canonical room (.tuple items) = canonical room (.list items) := by
  cases room <;> rfl

/-- The form of a map has the forms of its values, in the order of their names. -/
theorem canonical_map (room : Nat) (entries : List (Value × Value)) :
    canonical (room + 1) (.map entries) =
      (entries.mapM (canonicalEntry room)).map fun fields => .ofTable (orderedFields fields) := by
  rw [canonical, canonicalEntries_eq_mapM]

theorem canonicalEntry_eq_ok {entry : Value × Value} {field : Text × Value} :
    canonicalEntry room entry = .ok field ↔
      name (keyRoom room) entry.1 = .ok field.1 ∧ canonical room entry.2 = .ok field.2 := by
  obtain ⟨key, value⟩ := entry
  rw [canonicalEntry, bind_eq_ok]
  constructor
  · rintro ⟨n, hn, hrest⟩
    obtain ⟨value', hvalue, hfield⟩ := bind_eq_ok.1 hrest
    obtain rfl := Except.ok.inj hfield
    exact ⟨hn, hvalue⟩
  · rintro ⟨hn, hvalue⟩
    exact ⟨field.1, hn, bind_eq_ok.2 ⟨field.2, hvalue, rfl⟩⟩

/-! ## Payloads that have a form -/

/-- At most so many containers lie in each other, and all keys can be written out. -/
inductive Fits : (room : Nat) → Value → Prop
  | leaf (room : Nat) {v : Value} (leaf : Leaf v) : Fits room v
  | list {room : Nat} {items : List Value} (fits : ∀ v ∈ items, Fits room v) :
    Fits (room + 1) (.list items)
  | tuple {room : Nat} {items : List Value} (fits : ∀ v ∈ items, Fits room v) :
    Fits (room + 1) (.tuple items)
  | map {room : Nat} {entries : List (Value × Value)}
    (names : ∀ entry ∈ entries, ∃ n, name (keyRoom room) entry.1 = .ok n)
    (fits : ∀ entry ∈ entries, Fits room entry.2) : Fits (room + 1) (.map entries)

/-- A list fits if its items do with room for one level less. -/
theorem fits_list {items : List Value} :
    Fits (room + 1) (.list items) ↔ ∀ v ∈ items, Fits room v := by
  constructor
  · intro h
    cases h with
    | leaf _ leaf => cases leaf
    | list fits => exact fits
  · exact .list

/-- A map fits if its keys have names and its values fit with room for one level less. -/
theorem fits_map {entries : List (Value × Value)} :
    Fits (room + 1) (.map entries) ↔ ∀ entry ∈ entries,
      (∃ n, name (keyRoom room) entry.1 = .ok n) ∧ Fits room entry.2 := by
  constructor
  · intro h
    cases h with
    | leaf _ leaf => cases leaf
    | map names fits => exact fun entry hentry => ⟨names entry hentry, fits entry hentry⟩
  · exact fun h => .map (fun entry hentry => (h entry hentry).1) fun entry hentry =>
      (h entry hentry).2

/-- Without room only leaves fit. -/
theorem leaf_of_fits_zero (h : Fits 0 v) : Leaf v := by
  cases h with
  | leaf _ leaf => exact leaf

/-- The names of every mapping in a payload are texts that ascend, each above the one before, and no
sequence is a tuple. -/
inductive Ordered : Value → Prop
  | leaf {v : Value} (leaf : Leaf v) : Ordered v
  | list {items : List Value} (ordered : ∀ v ∈ items, Ordered v) : Ordered (.list items)
  | map {fields : List (Text × Value)} (ascending : (fields.map (·.1)).Pairwise (· < ·))
    (ordered : ∀ field ∈ fields, Ordered field.2) : Ordered (.ofTable fields)

/-- Items that are their own forms make a list that is. -/
theorem canonical_list_self {items : List Value} (h : ∀ v ∈ items, canonical room v = .ok v) :
    canonical (room + 1) (.list items) = .ok (.list items) := by
  rw [canonical_list, mapM_eq_map h, List.map_id']
  rfl

/-- Values that are their own forms, under names that ascend, make a mapping that is. -/
theorem canonical_ofTable_self {fields : List (Text × Value)}
    (hascending : (fields.map (·.1)).Pairwise (· < ·))
    (h : ∀ field ∈ fields, canonical room field.2 = .ok field.2) :
    canonical (room + 1) (.ofTable fields) = .ok (.ofTable fields) := by
  have hfields :
      (fields.map fun field => (Value.text field.1, field.2)).mapM (canonicalEntry room) =
      .ok fields := by
    rw [List.mapM_map, mapM_eq_map (g := id), List.map_id]
    intro field hfield
    exact canonicalEntry_eq_ok.2 ⟨rfl, h field hfield⟩
  rw [ofTable, canonical_map, hfields]
  exact congrArg (fun fields => Except.ok (ofTable fields))
    (Json.orderedFields_of_ascending hascending)

/-- A payload in order is its own canonical form. -/
theorem Ordered.canonical_eq (h : v.Ordered) (hfits : Fits room v) : canonical room v = .ok v := by
  induction h generalizing room with
  | leaf leaf => exact leaf.canonical_eq room
  | list _ ih =>
    cases room with
    | zero => cases leaf_of_fits_zero hfits
    | succ room => exact canonical_list_self fun v hv => ih v hv (fits_list.1 hfits v hv)
  | map ascending _ ih =>
    cases room with
    | zero => cases leaf_of_fits_zero hfits
    | succ room =>
      refine canonical_ofTable_self ascending fun field hfield => ?_
      exact ih field hfield (fits_map.1 hfits (.text field.1, field.2)
        (List.mem_map.2 ⟨field, hfield, rfl⟩)).2

/-! ## What canonical forms do not show -/

/-- Two keys are written in the same way. -/
def SameName (k k' : Value) : Prop := ∃ room n, name room k = .ok n ∧ name room k' = .ok n

theorem SameName.symm {k k' : Value} (h : SameName k k') : SameName k' k := by
  obtain ⟨room, n, hk, hk'⟩ := h
  exact ⟨room, n, hk', hk⟩

namespace Rearranges

end Rearranges

end Value

end CallAudit
