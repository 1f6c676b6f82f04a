import CallAudit.Proofs.Ingesting
import CallAudit.Proofs.Loading

/-!
# Two ingests and one

Markings files can be taken in one after the other, or as one file with the lines of both. For a
name that only one of them annotates this makes no difference. For a name that both annotate it
does: in one file the markings are merged, whereas a second ingest replaces what the first one has
stored (`Ingest.successive_ingests`).
-/

namespace CallAudit

open Store

namespace Ingest

variable {depstore : Path} {file : Path} {w w' : World} {M M' C : Table}

/-- An ingest of a markings file alone writes its markings. -/
theorem run_markings_eq_ok {summary : Summary} (h : Holds depstore w.files M C)
    (hrun : (Ingest.run depstore (some file) none).run.run w = (.ok summary, w')) :
    ∃ items M', loadMarkings w.files file = .ok items ∧
      tableWith MarkedItem.format M items = .ok M' ∧
      Holds depstore w'.files M' C ∧ ∃ lock w₁, (acquireLock depstore).run.run w =
        (.ok lock, w₁) := by
  obtain ⟨items, calls, M', C', hprepared, hM, hC, hholds⟩ := run_eq_ok h hrun
  obtain ⟨hitems, hcalls, hlock⟩ := hprepared
  obtain rfl : [] = calls := Except.ok.inj hcalls
  obtain rfl : C = C' := Except.ok.inj hC
  exact ⟨items, M', hitems, hM, hholds, hlock⟩

theorem run_markings_ok (h : Holds depstore w.files M C) {items : List (Text × MarkedItem)}
    (hitems : loadMarkings w.files file = .ok items)
    (hM : tableWith MarkedItem.format M items = .ok M')
    (hlock : ∃ lock w₁, (acquireLock depstore).run.run w = (.ok lock, w₁)) :
    ∃ summary w', (Ingest.run depstore (some file) none).run.run w = (.ok summary, w') ∧
      Holds depstore w'.files M' C := by
  have hprepared : Prepared depstore (some file) none w items [] := ⟨hitems, rfl, hlock⟩
  obtain ⟨w', hrun⟩ := hprepared.run h
  have hC : tableWith CallEdge.format.list C [] = .ok C := rfl
  simp only [hM, hC] at hrun
  exact ⟨_, w', hrun⟩

/-! ## Merged markings can be written -/

theorem isStorable_merge {m later : Marking} (h : m.isStorable = true)
    (hlater : later.isStorable = true) : (m.merge later).isStorable = true := by
  have hgroup {before after : Option Text} (hbefore : before.all Text.isScalar = true)
      (hafter : after.all Text.isScalar = true) : (after <|> before).all Text.isScalar = true := by
    cases after with
    | none => exact hbefore
    | some group => exact hafter
  obtain ⟨hrequired, haudited⟩ := Bool.and_eq_true_iff.1 h
  obtain ⟨hrequired', haudited'⟩ := Bool.and_eq_true_iff.1 hlater
  exact Bool.and_eq_true_iff.2 ⟨hgroup hrequired hrequired', hgroup haudited haudited'⟩

/-- An item has bytes. -/
def IsWritable (item : MarkedItem) : Prop := Text.isScalar (MarkedItem.format.toStored item) = true

theorem isWritable_iff {item : MarkedItem} :
    IsWritable item ↔ item.marking.isStorable = true ∧ Text.isScalar item.location.file = true := by
  rw [IsWritable, RecordFormat.toStored, MarkedItem.isScalar_compact, Bool.and_eq_true]

theorem canWrite_of_lookup? {items : List (Text × MarkedItem)} (hnodup : (items.map (·.1)).Nodup)
    (h : tableWith MarkedItem.format M items = .ok M') {name : Text} {item : MarkedItem}
    (hitem : Json.lookup? name items = some item) : Text.isScalar name = true ∧ IsWritable item :=
  exists_tableWith.1 ⟨M', h⟩ (name, item) ((Json.lookup?_eq_some_iff hnodup).1 hitem)

theorem isWritable_combine {a b : Option MarkedItem} {item : MarkedItem}
    (ha : ∀ x, a = some x → IsWritable x) (hb : ∀ x, b = some x → IsWritable x)
    (h : combine a b = some item) : IsWritable item := by
  cases a with
  | none => exact hb item h
  | some x =>
    cases b with
    | none => exact ha item h
    | some y =>
      obtain rfl := Option.some.inj h
      have hx := isWritable_iff.1 (ha x rfl)
      exact isWritable_iff.2 ⟨isStorable_merge hx.1 (isWritable_iff.1 (hb y rfl)).1, hx.2⟩

/-! ## The rows of two ingests -/

theorem get?_eq_of_stores {T T' : Table} {name : Text} {item : MarkedItem}
    (h : Stores MarkedItem.format T name item) (h' : Stores MarkedItem.format T' name item) :
    T'.get? (.text name) = T.get? (.text name) := by
  obtain ⟨bytes, hbytes, hrow⟩ := h
  obtain ⟨bytes', hbytes', hrow'⟩ := h'
  obtain rfl : bytes = bytes' := Except.ok.inj (hbytes.symm.trans hbytes')
  rw [hrow, hrow']

/-- The rows of one ingest and of two, for what the two files have under a name. -/
def Compares (name : Text) (one two : Table) : Option MarkedItem → Option MarkedItem → Prop
  | some first, some second =>
    Stores MarkedItem.format one name { first with marking := first.marking.merge second.marking } ∧
      Stores MarkedItem.format two name second
  | _, _ => two.get? (.text name) = one.get? (.text name)

theorem compares {itemsA itemsB items : List (Text × MarkedItem)} {A one two : Table}
    (hA : (itemsA.map (·.1)).Nodup) (hB : (itemsB.map (·.1)).Nodup)
    (hitems : (items.map (·.1)).Nodup)
    (hlookup : ∀ name, Json.lookup? name items =
      combine (Json.lookup? name itemsA) (Json.lookup? name itemsB))
    (hfirst : tableWith MarkedItem.format M itemsA = .ok A)
    (hsecond : tableWith MarkedItem.format A itemsB = .ok two)
    (hone : tableWith MarkedItem.format M items = .ok one) (name : Text) :
    Compares name one two (Json.lookup? name itemsA) (Json.lookup? name itemsB) := by
  have h₁ := stores_or_same hA hfirst name
  have h₂ := stores_or_same hB hsecond name
  have h := stores_or_same hitems hone name
  rw [hlookup name] at h
  cases hitemA : Json.lookup? name itemsA with
  | none =>
    cases hitemB : Json.lookup? name itemsB with
    | none =>
      simp only [hitemA, hitemB, combine] at h₁ h₂ h
      exact h₂.trans (h₁.trans h.symm)
    | some second =>
      simp only [hitemA, hitemB, combine] at h₂ h
      exact get?_eq_of_stores h h₂
  | some first =>
    cases hitemB : Json.lookup? name itemsB with
    | none =>
      simp only [hitemA, hitemB, combine] at h₁ h₂ h
      exact h₂.trans (get?_eq_of_stores h h₁)
    | some second =>
      simp only [hitemA, hitemB, combine] at h₂ h
      exact ⟨h, h₂⟩

/-- **Successive ingests.** If two markings files are taken in one after the other, then a file with
the lines of both can be taken in at once. Under a name that at most one of the files annotates, the
same is stored. Under a name that both annotate, the one ingest stores the markings merged, with the
location of the first, and the two ingests store what the second file says. -/
theorem successive_ingests (depstore a b c : Path) (w w₁ w₂ : World) (s₁ s₂ : Summary) (M C : Table)
    (linesA linesB lines : List (Nat × Text)) (h : Holds depstore w.files M C)
    (ha : (Ingest.run depstore (some a) none).run.run w = (.ok s₁, w₁))
    (hb : (Ingest.run depstore (some b) none).run.run w₁ = (.ok s₂, w₂))
    (hlinesA : recordLines w.files a = .ok linesA) (hlinesB : recordLines w₁.files b = .ok linesB)
    (hlines : recordLines w.files c = .ok lines)
    (hboth : lines.map (·.2) = linesA.map (·.2) ++ linesB.map (·.2)) :
    ∃ itemsA itemsB s w' one two, loadMarkings w.files a = .ok itemsA ∧
      loadMarkings w₁.files b = .ok itemsB ∧
      (Ingest.run depstore (some c) none).run.run w = (.ok s, w') ∧
      Holds depstore w'.files one C ∧ Holds depstore w₂.files two C ∧
      (∀ name, Compares name one two (Json.lookup? name itemsA) (Json.lookup? name itemsB)) ∧
      ∀ bytes, two.get? (.blob bytes) = one.get? (.blob bytes) := by
  obtain ⟨itemsA, A, hitemsA, hA, hholds₁, hlock⟩ := run_markings_eq_ok h ha
  obtain ⟨itemsB, two, hitemsB, htwo, hholds₂, -⟩ := run_markings_eq_ok hholds₁ hb
  obtain ⟨linesA', recordsA, hreadA, hrecordsA, hfoldA⟩ := loadMarkings_eq_ok.1 hitemsA
  obtain ⟨linesB', recordsB, hreadB, hrecordsB, hfoldB⟩ := loadMarkings_eq_ok.1 hitemsB
  obtain rfl : linesA = linesA' := Except.ok.inj (hlinesA.symm.trans hreadA)
  obtain rfl : linesB = linesB' := Except.ok.inj (hlinesB.symm.trans hreadB)
  have hitems : loadMarkings w.files c = .ok ((recordsA ++ recordsB).foldl addRecord []) :=
    loadMarkings_eq_ok.2 ⟨lines, _, hlines, hboth ▸ List.rel_append hrecordsA hrecordsB, rfl⟩
  have hlookup (name : Text) : Json.lookup? name ((recordsA ++ recordsB).foldl addRecord []) =
      combine (Json.lookup? name itemsA) (Json.lookup? name itemsB) := by
    rw [List.foldl_append, lookup?_addRecords, hfoldA, hfoldB]
  have hnodupA := nodup_loadMarkings hitemsA
  have hnodupB := nodup_loadMarkings hitemsB
  have hnodup := nodup_loadMarkings hitems
  -- all that is merged can be written, because what is merged can be
  have hwritable :
      ∀ row ∈ (recordsA ++ recordsB).foldl addRecord [], CanWrite MarkedItem.format row := by
    intro row hrow
    have hrow' := (hlookup row.1).symm.trans ((Json.lookup?_eq_some_iff hnodup).2 hrow)
    refine ⟨?_, isWritable_combine (fun x hx => (canWrite_of_lookup? hnodupA hA hx).2)
      (fun x hx => (canWrite_of_lookup? hnodupB htwo hx).2) hrow'⟩
    cases hitemA : Json.lookup? row.1 itemsA with
    | some x => exact (canWrite_of_lookup? hnodupA hA hitemA).1
    | none =>
      rw [hitemA] at hrow'
      exact (canWrite_of_lookup? hnodupB htwo hrow').1
  obtain ⟨one, hone⟩ := exists_tableWith (T := M).2 hwritable
  obtain ⟨s, w', hrun, hholds⟩ := run_markings_ok h hitems hone hlock
  refine ⟨itemsA, itemsB, s, w', one, two, hitemsA, hitemsB, hrun, hholds, hholds₂, ?_, ?_⟩
  · exact compares hnodupA hnodupB hnodup hlookup hA htwo hone
  · intro bytes
    have hblob (text : Text) : TableKey.blob bytes ≠ .text text := by simp
    rw [get?_tableWith htwo (fun text heq => absurd heq (hblob text)),
      get?_tableWith hA (fun text heq => absurd heq (hblob text)),
      get?_tableWith hone (fun text heq => absurd heq (hblob text))]

/-! ## A name in both files -/

/-- What the first file says of `sign`: it has to be audited. -/
def auditItem : MarkedItem :=
  { marking := { requiresAudit := some "g" }, location := { file := "a", line := 1 } }

/-- What the second file says of `sign`: it is an entry point. -/
def entryItem : MarkedItem :=
  { marking := { isEntryPoint := true }, location := { file := "b", line := 2 } }

/-- A line that says something of `sign`. -/
def lineOfSign (item : MarkedItem) : Text :=
  lineOf MarkingRecord.format { name := "sign", marking := item.marking, location := item.location }

/-- Two markings files, and a third one with the lines of both. -/
def sharedFiles : FileTree :=
  { nodes := [
      fileOf "a" (lineOfSign auditItem),
      fileOf "b" (lineOfSign entryItem),
      fileOf "ab" (lineOfSign auditItem ++ "\n" ++ lineOfSign entryItem)] }

/-- The ingest of the first file. -/
def firstIngest : Except Failure Summary × World :=
  (Ingest.run (pathOf "d") (some (pathOf "a")) none).run.run { files := sharedFiles }

/-- The ingest of the second file after it. -/
def secondIngest : Except Failure Summary × World :=
  (Ingest.run (pathOf "d") (some (pathOf "b")) none).run.run firstIngest.2

/-- The ingest of both at once. -/
def onceIngest : Except Failure Summary × World :=
  (Ingest.run (pathOf "d") (some (pathOf "ab")) none).run.run { files := sharedFiles }

/-- What a depstore has stored for a name. -/
def storedMarking (t : FileTree) (depstore : Path) (name : Text) : Option Marking := do
  let markings ← found t (depstore.child "marking")
  let cell ← markings.get? (.text name)
  let item ← (decodeCell MarkedItem.format cell).toOption
  return item.marking

/-- Two ingests replace the first marking of `sign`, where one ingest merges it with the second. -/
theorem successive_ingests_replace :
    firstIngest.1 = .ok ⟨1, 0, 0⟩ ∧ secondIngest.1 = .ok ⟨1, 0, 0⟩ ∧ onceIngest.1 = .ok ⟨1, 0, 0⟩ ∧
    storedMarking secondIngest.2.files (pathOf "d") "sign" = some { isEntryPoint := true } ∧
    storedMarking onceIngest.2.files (pathOf "d") "sign" =
      some { requiresAudit := some "g", isEntryPoint := true } := by
  decide +kernel

/-- Both files annotate `sign`, and the theorem says what is stored for it. -/
theorem successive_ingests_shared :
    ∃ one two, Holds (pathOf "d") onceIngest.2.files one {} ∧
      Holds (pathOf "d") secondIngest.2.files two {} ∧
      Compares "sign" one two (some auditItem) (some entryItem) := by
  have hholds : found sharedFiles ((pathOf "d").child "marking") = some {} ∧
      found sharedFiles ((pathOf "d").child "calledge") = some {} := by decide +kernel
  have hruns : firstIngest.1 = .ok ⟨1, 0, 0⟩ ∧ secondIngest.1 = .ok ⟨1, 0, 0⟩ ∧
      recordLines sharedFiles (pathOf "a") = .ok [(1, lineOfSign auditItem)] ∧
      recordLines firstIngest.2.files (pathOf "b") = .ok [(1, lineOfSign entryItem)] ∧
      recordLines sharedFiles (pathOf "ab") =
        .ok [(1, lineOfSign auditItem), (2, lineOfSign entryItem)] ∧
      loadMarkings sharedFiles (pathOf "a") = .ok [("sign", auditItem)] ∧
      loadMarkings firstIngest.2.files (pathOf "b") = .ok [("sign", entryItem)] := by decide +kernel
  obtain ⟨hfirst, hsecond, hlinesA, hlinesB, hlines, hitemsA, hitemsB⟩ := hruns
  have hfirst' : firstIngest = (.ok ⟨1, 0, 0⟩, firstIngest.2) := eq_mk_of_fst hfirst
  have hsecond' : secondIngest = (.ok ⟨1, 0, 0⟩, secondIngest.2) := eq_mk_of_fst hsecond
  obtain ⟨itemsA, itemsB, s, w', one, two, hloadA, hloadB, hrun, hone, htwo, hcompares, -⟩ :=
    successive_ingests (pathOf "d") (pathOf "a") (pathOf "b") (pathOf "ab") { files := sharedFiles }
      firstIngest.2 secondIngest.2 ⟨1, 0, 0⟩ ⟨1, 0, 0⟩ {} {} _ _ _ ⟨hholds.1, hholds.2⟩ hfirst'
        hsecond'
      hlinesA hlinesB hlines rfl
  have honce : onceIngest = (.ok s, w') := hrun
  obtain rfl := Except.ok.inj (hloadA.symm.trans hitemsA)
  obtain rfl := Except.ok.inj (hloadB.symm.trans hitemsB)
  exact ⟨one, two, honce ▸ hone, htwo, hcompares "sign"⟩

end Ingest

end CallAudit
