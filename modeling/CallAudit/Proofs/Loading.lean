import CallAudit.Ingest.Records
import CallAudit.Proofs.Batches

/-!
# What record files hold

A record file that can be read gives one item for each name (`Ingest.nodup_loadMarkings`,
`Ingest.nodup_loadCalls`). The markings are the records of the lines taken together in their order
(`Ingest.loadMarkings_eq_ok`), where the markings of one name are merged. Merging is associative, so
the lines can be taken in two parts: what the parts give for a name is merged in the end
(`Ingest.lookup?_addRecords`).
-/

namespace CallAudit

/-! ## Names that occur once -/

namespace Json

variable {α : Type} {name : Text} {value : α} {fields : List (Text × α)}

/-- Setting a field keeps the order of the names. -/
theorem keys_setField (name : Text) (value : α) (fields : List (Text × α)) :
    (setField name value fields).map (·.1) =
      if name ∈ fields.map (·.1) then fields.map (·.1) else fields.map (·.1) ++ [name] := by
  induction fields with
  | nil => rfl
  | cons field rest ih =>
    obtain ⟨n, v⟩ := field
    rw [setField]
    by_cases hn : n = name
    · simp [hn]
    · rw [if_neg hn, List.map_cons, ih, List.map_cons]
      by_cases hrest : name ∈ rest.map (·.1)
      · rw [if_pos hrest, if_pos (List.mem_cons_of_mem _ hrest)]
      · rw [if_neg hrest, if_neg (by simpa [Ne.symm hn] using hrest), List.cons_append]

/-- Setting a field keeps names different. -/
theorem nodup_setField (h : (fields.map (·.1)).Nodup) (name : Text) (value : α) :
    ((setField name value fields).map (·.1)).Nodup := by
  rw [keys_setField]
  split
  · exact h
  · next hname =>
    rw [List.nodup_append]
    refine ⟨h, List.nodup_singleton name, ?_⟩
    rintro a ha b hb rfl
    obtain rfl := List.mem_singleton.1 hb
    exact hname ha

/-- Where names occur once, look-up finds what is there. -/
theorem lookup?_eq_some_iff (h : (fields.map (·.1)).Nodup) :
    lookup? name fields = some value ↔ (name, value) ∈ fields := by
  induction fields with
  | nil => simp [lookup?]
  | cons field rest ih =>
    obtain ⟨n, v⟩ := field
    rw [List.map_cons, List.nodup_cons] at h
    rw [lookup?]
    by_cases hn : n = name
    · subst hn
      have habsent : (n, value) ∉ rest := fun hmem => h.1 (List.mem_map.2 ⟨_, hmem, rfl⟩)
      simp [habsent, eq_comm]
    · simp [hn, Ne.symm hn, ih h.2]

end Json

theorem Store.lastIn_of_nodup {α : Type} {batch : List (Text × α)} (h : (batch.map (·.1)).Nodup)
    (key : Text) : lastIn key batch = Json.lookup? key batch := by
  have hreverse : (batch.reverse.map (·.1)).Nodup := by
    rw [List.map_reverse]
    exact List.nodup_reverse.2 h
  apply Option.ext
  intro a
  rw [lastIn, Json.lookup?_eq_some_iff hreverse, Json.lookup?_eq_some_iff h, List.mem_reverse]

/-- Under each key, a batch has written its record or has left what was there. -/
theorem Store.stores_or_same {α : Type} {format : RecordFormat α} {T T' : Table}
    {batch : List (Text × α)} (hnodup : (batch.map (·.1)).Nodup)
    (h : tableWith format T batch = .ok T') (key : Text) :
    match Json.lookup? key batch with
    | some a => Stores format T' key a
    | none => T'.get? (.text key) = T.get? (.text key) := by
  have hlast := lastIn_of_nodup hnodup key
  cases ha : Json.lookup? key batch with
  | some a => exact stores_of_tableWith h (hlast.trans ha)
  | none =>
    refine get?_tableWith h ?_
    intro text htext
    rw [← TableKey.text_inj.1 htext]
    exact hlast.trans ha

namespace Ingest

variable {files : FileTree} {path : Path} {source : Text}

/-- What every line preserves holds in the end. -/
theorem foldLines_induction {β : Type} {add : β → Nat × Text → Except Failure β} (P : β → Prop)
    (hstep : ∀ acc line acc', P acc → add acc line = .ok acc' → P acc') {acc acc' : β}
    {lines : List (Nat × Text)} (hacc : P acc) (h : foldLines add acc lines = .ok acc') :
    P acc' := by
  induction lines generalizing acc with
  | nil => exact Except.ok.inj h ▸ hacc
  | cons line rest ih =>
    rw [foldLines] at h
    cases hline : add acc line with
    | error e => simp [hline] at h
    | ok next =>
      simp only [hline] at h
      exact ih (hstep acc line next hacc hline) h

/-! ## Markings -/

/-- The text of a line is a marking record that is allowed. -/
def Takes (text : Text) (r : MarkingRecord) : Prop :=
  recordOf MarkingRecord.format [] (0, text) = .ok r ∧
    (r.marking.isAnnotated && (r.marking.isEntryPoint && r.name.contains openBracket)) = false

/-- Takes a record into those before, unless it has no role. -/
def addRecord (items : List (Text × MarkedItem)) (r : MarkingRecord) : List (Text × MarkedItem) :=
  if r.marking.isAnnotated then addMarking items r else items

/-- Where a line stands does not matter for the record on it. -/
theorem recordOf_eq_ok {α : Type} {format : RecordFormat α} {line : Nat × Text} {r : α} :
    recordOf format source line = .ok r ↔ recordOf format [] (0, line.2) = .ok r := by
  unfold recordOf
  cases Json.readObject line.2 with
  | error e => simp
  | ok fields =>
    cases fields with
    | none => simp
    | some fields =>
      dsimp only
      cases format.ofPayload (.obj fields) <;> simp [Except.mapError]

theorem addMarkingLine_eq_ok {items items' : List (Text × MarkedItem)} {line : Nat × Text} :
    addMarkingLine source items line = .ok items' ↔
      ∃ r, Takes line.2 r ∧ items' = addRecord items r := by
  have hadd {r : MarkingRecord} (hrecord : recordOf MarkingRecord.format source line = .ok r) :
      addMarkingLine source items line = .ok items' ↔
        (r.marking.isAnnotated && (r.marking.isEntryPoint && r.name.contains openBracket)) = false ∧
          items' = addRecord items r := by
    unfold addMarkingLine addRecord
    simp only [hrecord]
    cases r.marking.isAnnotated <;> cases r.marking.isEntryPoint && r.name.contains openBracket <;>
      simp [eq_comm]
  constructor
  · intro h
    cases hrecord : recordOf MarkingRecord.format source line with
    | error e => simp [addMarkingLine, hrecord] at h
    | ok r =>
      obtain ⟨hallowed, hitems⟩ := (hadd hrecord).1 h
      exact ⟨r, ⟨recordOf_eq_ok.1 hrecord, hallowed⟩, hitems⟩
  · rintro ⟨r, ⟨hrecord, hallowed⟩, hitems⟩
    exact (hadd (recordOf_eq_ok.2 hrecord)).2 ⟨hallowed, hitems⟩

theorem foldLines_addMarkingLine {items items' : List (Text × MarkedItem)}
    {lines : List (Nat × Text)} :
    foldLines (addMarkingLine source) items lines = .ok items' ↔
      ∃ records, List.Forall₂ Takes (lines.map (·.2)) records ∧
        items' = records.foldl addRecord items := by
  induction lines generalizing items with
  | nil => simp [foldLines, eq_comm]
  | cons line rest ih =>
    rw [foldLines, List.map_cons]
    constructor
    · intro h
      cases hline : addMarkingLine source items line with
      | error e => simp [hline] at h
      | ok next =>
        simp only [hline] at h
        obtain ⟨r, hr, rfl⟩ := addMarkingLine_eq_ok.1 hline
        obtain ⟨records, hrecords, rfl⟩ := ih.1 h
        exact ⟨r :: records, .cons hr hrecords, rfl⟩
    · rintro ⟨records, hrecords, rfl⟩
      cases hrecords with
      | cons hr hrest =>
        rw [addMarkingLine_eq_ok.2 ⟨_, hr, rfl⟩]
        exact ih.2 ⟨_, hrest, rfl⟩

/-- The markings of a file are the records of its lines, taken together. -/
theorem loadMarkings_eq_ok {items : List (Text × MarkedItem)} :
    loadMarkings files path = .ok items ↔ ∃ lines records, recordLines files path = .ok lines ∧
      List.Forall₂ Takes (lines.map (·.2)) records ∧ items = records.foldl addRecord [] := by
  unfold loadMarkings
  cases recordLines files path with
  | error e => simp
  | ok lines => simp [foldLines_addMarkingLine]

/-- A record keeps names different. -/
theorem nodup_addRecord {items : List (Text × MarkedItem)} (h : (items.map (·.1)).Nodup)
    (r : MarkingRecord) : ((addRecord items r).map (·.1)).Nodup := by
  unfold addRecord addMarking
  split
  · split <;> exact Json.nodup_setField h _ _
  · exact h

/-- Each name has one marking. -/
theorem nodup_loadMarkings {items : List (Text × MarkedItem)}
    (h : loadMarkings files path = .ok items) : (items.map (·.1)).Nodup := by
  unfold loadMarkings at h
  split at h
  · cases h
  · refine foldLines_induction (fun items => (items.map (·.1)).Nodup) ?_ List.nodup_nil h
    intro items line items' hitems hline
    obtain ⟨r, -, rfl⟩ := addMarkingLine_eq_ok.1 hline
    exact nodup_addRecord hitems r

/-- Each caller has one list of calls. -/
theorem nodup_loadCalls {calls : List (Text × List CallEdge)}
    (h : loadCalls files path = .ok calls) : (calls.map (·.1)).Nodup := by
  unfold loadCalls at h
  split at h
  · cases h
  · refine foldLines_induction (fun calls => (calls.map (·.1)).Nodup) ?_ List.nodup_nil h
    intro calls line calls' hcalls hline
    unfold addCallLine at hline
    split at hline
    · cases hline
    · rw [← Except.ok.inj hline]
      exact Json.nodup_setField hcalls _ _

/-! ## Markings in two parts -/

/-- What two parts have under a name, merged where both have something. The location is that of the
first. -/
def combine : Option MarkedItem → Option MarkedItem → Option MarkedItem
  | none, later => later
  | some item, none => some item
  | some item, some later => some { item with marking := item.marking.merge later.marking }

theorem merge_assoc (a b c : Marking) : (a.merge b).merge c = a.merge (b.merge c) := by
  simp only [Marking.merge, Marking.mk.injEq, Bool.or_assoc, and_true]
  constructor
  · cases c.requiresAudit <;> rfl
  · cases c.audited <;> rfl

theorem combine_assoc (a b c : Option MarkedItem) :
    combine (combine a b) c = combine a (combine b c) := by
  cases a <;> cases b <;> cases c <;> simp [combine, merge_assoc]

/-- A record is combined with the item of its name. -/
theorem lookup?_addRecord (items : List (Text × MarkedItem)) (r : MarkingRecord) (name : Text) :
    Json.lookup? name (addRecord items r) = combine (Json.lookup? name items)
      (Json.lookup? name (addRecord [] r)) := by
  have hnone (item : Option MarkedItem) : combine item none = item := by cases item <;> rfl
  unfold addRecord
  cases r.marking.isAnnotated with
  | false => exact (hnone _).symm
  | true =>
    simp only [if_true, addMarking, Json.lookup?]
    by_cases hname : name = r.name
    · subst hname
      cases Json.lookup? r.name items <;> simp [combine]
    · cases Json.lookup? r.name items <;> simp [hname, hnone, Json.lookup?]

/-- Records can be taken in two parts. -/
theorem lookup?_addRecords (records : List MarkingRecord) (items : List (Text × MarkedItem))
    (name : Text) :
    Json.lookup? name (records.foldl addRecord items) =
      combine (Json.lookup? name items) (Json.lookup? name (records.foldl addRecord [])) := by
  induction records generalizing items with
  | nil => cases hname : Json.lookup? name items <;> simp [hname, combine, Json.lookup?]
  | cons r rest ih =>
    rw [List.foldl_cons, List.foldl_cons, ih, ih (addRecord [] r), lookup?_addRecord, combine_assoc]

end Ingest

end CallAudit
