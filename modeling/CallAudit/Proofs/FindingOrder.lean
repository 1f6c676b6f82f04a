import CallAudit.Proofs.Numerals
import CallAudit.Proofs.Results
import CallAudit.Proofs.SortedLists
import CallAudit.Report.Diagnostic
import CallAudit.Report.Document

/-!
# The order in which findings are shown

Findings are compared by keys: a step by its identifier, file and line, a path by the keys of its
steps, an audited use by its escort and its path. Keys are in the lexicographic order, which is
linear, and no two findings have one key. So there is one way to put findings in order, and a report
is shown in the same way whatever the order in which its findings were recorded.

* `AuditPath.le_iff`, `AuditedUse.le_iff`: findings are compared by their keys;
* `AuditReport.SameFindings`: reports that differ by the order of their findings are shown alike.
-/

namespace CallAudit

/-! ## Keys -/

/-- What a step is ordered by: identifier, file and line. -/
def AuditStep.sortKey (s : AuditStep) : Text ×ₗ Text ×ₗ ℤ :=
  toLex (s.identifier, toLex (s.location.file, s.location.line))

/-- What a path is ordered by: the keys of its steps, the first one first. -/
def AuditPath.sortKey (p : AuditPath) : List (Text ×ₗ Text ×ₗ ℤ) := p.map AuditStep.sortKey

/-- What an audited use is ordered by: escort and path. -/
def AuditedUse.sortKey (u : AuditedUse) : Text ×ₗ List (Text ×ₗ Text ×ₗ ℤ) :=
  toLex (u.escort, AuditPath.sortKey u.path)

/-- Different steps have different keys. -/
theorem AuditStep.sortKey_injective : Function.Injective sortKey := by
  intro a b h
  obtain ⟨hidentifier, hlocation⟩ := Prod.mk.inj (toLex_inj.1 h)
  obtain ⟨hfile, hline⟩ := Prod.mk.inj (toLex_inj.1 hlocation)
  obtain ⟨identifier, file, line⟩ := a
  obtain ⟨identifier', file', line'⟩ := b
  dsimp only at hidentifier hfile hline
  rw [hidentifier, hfile, hline]

theorem AuditPath.sortKey_injective : Function.Injective sortKey :=
  List.map_injective_iff.2 AuditStep.sortKey_injective

/-- Different uses have different keys. -/
theorem AuditedUse.sortKey_injective : Function.Injective sortKey := by
  intro a b h
  obtain ⟨hescort, hpath⟩ := Prod.mk.inj (toLex_inj.1 h)
  obtain ⟨escort, path⟩ := a
  obtain ⟨escort', path'⟩ := b
  dsimp only at hescort hpath
  rw [hescort, AuditPath.sortKey_injective hpath]

theorem AuditStep.lt_iff (a b : AuditStep) : a.lt b = true ↔ a.sortKey < b.sortKey := by
  rw [sortKey, sortKey, Prod.Lex.toLex_lt_toLex, Prod.Lex.toLex_lt_toLex, lt]
  -- a part of the key decides where the parts before it are equal
  by_cases hidentifier : a.identifier = b.identifier
  · by_cases hfile : a.location.file = b.location.file
    · simp [hidentifier, hfile]
    · simp [hidentifier, hfile]
  · simp [hidentifier]

/-- Paths are compared by the keys of their steps. -/
theorem AuditPath.le_iff (p q : AuditPath) : le p q = true ↔ sortKey p ≤ sortKey q := by
  -- the cases of the comparison: a path that ends, equal first steps, first steps that differ
  induction p, q using AuditPath.le.induct with
  | case1 q =>
    have hnil : ¬ sortKey q < sortKey [] := List.not_lt_nil _
    simpa [le] using not_lt.1 hnil
  | case2 a p =>
    have hnil : sortKey [] < sortKey (a :: p) := List.nil_lt_cons _ _
    simpa [le] using hnil
  | case3 p b q ih =>
    show le (b :: p) (b :: q) = true ↔ b.sortKey :: sortKey p ≤ b.sortKey :: sortKey q
    rw [cons_le_cons_iff_of_linearOrder, le, if_pos rfl, ih]
    simp
  | case4 a p b q hne =>
    -- steps that differ have different keys, so their keys decide
    have hkeys : a.sortKey ≠ b.sortKey := fun h => hne (AuditStep.sortKey_injective h)
    show le (a :: p) (b :: q) = true ↔ a.sortKey :: sortKey p ≤ b.sortKey :: sortKey q
    rw [cons_le_cons_iff_of_linearOrder, le, if_neg hne, AuditStep.lt_iff]
    simp [hkeys]

/-- Uses are compared by their escorts and then by their paths. -/
theorem AuditedUse.le_iff (a b : AuditedUse) : a.le b = true ↔ a.sortKey ≤ b.sortKey := by
  rw [sortKey, sortKey, Prod.Lex.toLex_le_toLex, le]
  by_cases hescort : a.escort = b.escort
  · simp [hescort, AuditPath.le_iff]
  · simp [hescort]

/-! ## Findings that can be written out -/

/-- Whether the lines of all steps of a path can be written out. -/
def AuditPath.IsShort (p : AuditPath) : Prop := ∀ s ∈ p, Text.isLong s.location.line = false

/-- A path with each step on a line of its own. -/
def AuditPath.written (p : AuditPath) : Text :=
  p.flatMap fun s => "-> " ++ s.identifier ++ " at " ++
    (s.location.file ++ ":" ++ Text.ofInt s.location.line) ++ "\n"

/-- A step at a line that is too long cannot be shown. -/
theorem AuditStep.shown_of_isLong {s : AuditStep} (h : Text.isLong s.location.line = true) :
    s.shown = .error .longInteger := by
  rw [shown, SourceLocation.shown, Text.writeInt, if_pos h]
  rfl

/-- Any other step is shown with its location. -/
theorem AuditStep.shown_of_not_isLong {s : AuditStep} (h : Text.isLong s.location.line = false) :
    s.shown = .ok ("-> " ++ s.identifier ++ " at " ++
      (s.location.file ++ ":" ++ Text.ofInt s.location.line) ++ "\n") := by
  rw [shown, SourceLocation.shown, Text.writeInt, h]
  rfl

/-- A path is shown step by step. -/
theorem AuditPath.shown_of_isShort {p : AuditPath} (h : p.IsShort) : p.shown = .ok p.written := by
  rw [shown, mapM_eq_map fun s hs => AuditStep.shown_of_not_isLong (h s hs), written,
    List.flatMap_def]
  rfl

/-- A path is not shown if one of its lines cannot be written out. -/
theorem AuditPath.shown_of_not_isShort {p : AuditPath} (h : ¬ p.IsShort) :
    p.shown = .error .longInteger := by
  obtain ⟨s, hs, hlong⟩ : ∃ s ∈ p, Text.isLong s.location.line = true := by
    simpa [IsShort] using h
  rw [shown, mapM_eq_error_of_mem ?_ hs (AuditStep.shown_of_isLong hlong)]
  · rfl
  · intro s' _ e he
    cases hlong' : Text.isLong s'.location.line with
    | true => exact Except.error.inj (he.symm.trans (AuditStep.shown_of_isLong hlong'))
    | false => cases he.symm.trans (AuditStep.shown_of_not_isLong hlong')

/-- What is made of a path that is shown fails in one way only. -/
theorem AuditPath.eq_longInteger {α : Type} {p : AuditPath} {f : Text → α} {e : WriteFault}
    (h : p.shown.map f = .error e) : e = .longInteger := by
  by_cases hp : p.IsShort
  · rw [shown_of_isShort hp] at h
    cases h
  · rw [shown_of_not_isShort hp] at h
    exact (Except.error.inj h).symm

/-! ## Reports -/

namespace AuditReport

/-- The lines of all findings of a report can be written out. -/
structure IsShort (r : AuditReport) : Prop where
  unaudited : ∀ p ∈ r.unaudited, AuditPath.IsShort p
  audited : ∀ u ∈ r.audited, AuditPath.IsShort u.path

/-- The diagnostics of findings that are listed in order: a warning for each path, and then a note
for each audited use. -/
def diagnosticsOf (paths : List AuditPath) (uses : List AuditedUse) : List Diagnostic :=
  paths.map (fun p =>
    { level := .warning
      message := "Unaudited use of insecure functions:\n" ++ AuditPath.written p }) ++
  uses.map (fun u =>
    { level := .note
      message := "Audited use of insecure functions:\n   " ++ u.escort ++ "\n" ++
        AuditPath.written u.path })

variable {r r' : AuditReport}

theorem mem_orderedUnaudited {p : AuditPath} : p ∈ r.orderedUnaudited ↔ p ∈ r.unaudited :=
  List.mem_mergeSort

theorem mem_orderedAudited {u : AuditedUse} : u ∈ r.orderedAudited ↔ u ∈ r.audited :=
  List.mem_mergeSort

/-- The diagnostics are those of the sorted findings. -/
theorem diagnostics_of_isShort (h : r.IsShort) :
    r.diagnostics = .ok (diagnosticsOf r.orderedUnaudited r.orderedAudited) := by
  have hwarnings := mapM_eq_map (f := Diagnostic.ofUnaudited) fun p hp => by
    rw [Diagnostic.ofUnaudited,
      AuditPath.shown_of_isShort (h.unaudited p (mem_orderedUnaudited.1 hp))]
    rfl
  have hnotes := mapM_eq_map (f := Diagnostic.ofAudited) fun u hu => by
    rw [Diagnostic.ofAudited, AuditPath.shown_of_isShort (h.audited u (mem_orderedAudited.1 hu))]
    rfl
  rw [diagnostics, hwarnings, hnotes]
  rfl

/-- One line that cannot be written out leaves a report without diagnostics. -/
theorem diagnostics_of_not_isShort (h : ¬ r.IsShort) : r.diagnostics = .error .longInteger := by
  have hunaudited : ∀ p ∈ r.orderedUnaudited, ∀ e, Diagnostic.ofUnaudited p = .error e →
      e = .longInteger := fun _ _ _ he => AuditPath.eq_longInteger he
  have haudited : ∀ u ∈ r.orderedAudited, ∀ e, Diagnostic.ofAudited u = .error e →
      e = .longInteger := fun _ _ _ he => AuditPath.eq_longInteger he
  by_cases hpaths : ∀ p ∈ r.unaudited, AuditPath.IsShort p
  · -- the warnings are there, and a note is not
    obtain ⟨u, hu, hlong⟩ : ∃ u ∈ r.audited, ¬ AuditPath.IsShort u.path := by
      by_contra hall
      push Not at hall
      exact h ⟨hpaths, hall⟩
    have hnotes := mapM_eq_error_of_mem haudited (mem_orderedAudited.2 hu)
      (by rw [Diagnostic.ofAudited, AuditPath.shown_of_not_isShort hlong]; rfl)
    rw [diagnostics, hnotes]
    cases hwarnings : r.orderedUnaudited.mapM Diagnostic.ofUnaudited with
    | ok warnings => rfl
    | error e =>
      obtain ⟨_, p, _, hl, -, hp⟩ := mapM_eq_error.1 hwarnings
      rw [hunaudited p (by simp [hl]) e hp]
      rfl
  · push Not at hpaths
    obtain ⟨p, hp, hlong⟩ := hpaths
    rw [diagnostics, mapM_eq_error_of_mem hunaudited (mem_orderedUnaudited.2 hp)
      (by rw [Diagnostic.ofUnaudited, AuditPath.shown_of_not_isShort hlong]; rfl)]
    rfl

/-- Two reports list the same findings, each as often, and are about equally many entry points. -/
structure SameFindings (r r' : AuditReport) : Prop where
  audited : r.audited.Perm r'.audited
  unaudited : r.unaudited.Perm r'.unaudited
  entryPoints : r.entryPoints.length = r'.entryPoints.length

namespace SameFindings

theorem orderedAudited (h : SameFindings r r') : r.orderedAudited = r'.orderedAudited :=
  mergeSort_key_eq_of_perm AuditedUse.le_iff AuditedUse.sortKey_injective h.audited

theorem orderedUnaudited (h : SameFindings r r') : r.orderedUnaudited = r'.orderedUnaudited :=
  mergeSort_key_eq_of_perm AuditPath.le_iff AuditPath.sortKey_injective h.unaudited

/-- Reports with the same findings have the same diagnostics. -/
theorem diagnostics (h : SameFindings r r') : r.diagnostics = r'.diagnostics := by
  rw [AuditReport.diagnostics, AuditReport.diagnostics, h.orderedAudited, h.orderedUnaudited]

/-- Reports with the same findings have the same text. -/
theorem text (h : SameFindings r r') : r.text = r'.text := by
  rw [AuditReport.text, AuditReport.text, h.diagnostics, summary, summary, h.audited.length_eq,
    h.unaudited.length_eq, h.entryPoints]

/-- Reports with the same findings have the same JSON text. -/
theorem json (h : SameFindings r r') : r.json = r'.json := by
  rw [AuditReport.json, AuditReport.json, document, document, h.orderedAudited, h.orderedUnaudited,
    h.audited.length_eq, h.unaudited.length_eq, h.entryPoints]

end SameFindings

/-- **A report is shown by its findings, whatever their order.** Reports that differ by the order of
their audited and of their unaudited findings have the same diagnostics, the same text and the same
JSON text, or fail to be shown in the same way. If the lines of all findings can be written out, the
diagnostics are one warning for each unaudited path and after them one note for each audited use,
with each finding as often as the report lists it; the paths ascend by the identifiers, files and
lines of their steps, the audited uses by escort and then by path. One line that is too long leaves
the report without diagnostics and text. -/
theorem shown_in_canonical_order (r : AuditReport) :
    (∀ audited unaudited, audited.Perm r.audited → unaudited.Perm r.unaudited →
      { r with audited, unaudited }.diagnostics = r.diagnostics ∧
      { r with audited, unaudited }.text = r.text ∧
      { r with audited, unaudited }.json = r.json) ∧
    (r.IsShort → ∃ (paths : List AuditPath) (uses : List AuditedUse),
      r.diagnostics = .ok (diagnosticsOf paths uses) ∧
      paths.Perm r.unaudited ∧
      paths.Pairwise (fun p q => AuditPath.sortKey p ≤ AuditPath.sortKey q) ∧
      uses.Perm r.audited ∧ uses.Pairwise (fun u v => u.sortKey ≤ v.sortKey)) ∧
    (¬ r.IsShort → r.diagnostics = .error .longInteger ∧ r.text = .error .longInteger) := by
  refine ⟨fun audited unaudited haudited hunaudited => ?_, fun hshort => ?_, fun hlong => ?_⟩
  · have hsame : SameFindings { r with audited, unaudited } r := ⟨haudited, hunaudited, rfl⟩
    exact ⟨hsame.diagnostics, hsame.text, hsame.json⟩
  · refine ⟨_, _, diagnostics_of_isShort hshort, ?_, ?_, ?_, ?_⟩
    · exact List.mergeSort_perm _ _
    · exact pairwise_mergeSort_key AuditPath.le_iff _
    · exact List.mergeSort_perm _ _
    · exact pairwise_mergeSort_key AuditedUse.le_iff _
  · have hdiagnostics := diagnostics_of_not_isShort hlong
    exact ⟨hdiagnostics, by rw [text, hdiagnostics]; rfl⟩

/-- A report that lists a path twice, another one before its beginning, and the later escort
first. -/
def jumbled : AuditReport :=
  let early : AuditStep := { identifier := ['s'], location := { file := ['f'], line := 9 } }
  let late : AuditStep := { identifier := ['s'], location := { file := ['f'], line := 10 } }
  { audited := [{ escort := ['z'], path := [early] }, { escort := ['e'], path := [late, early] }]
    unaudited := [[late, early], [late], [early], [late]] }

/-- The findings of a report may be listed backwards. -/
theorem shown_in_canonical_order_jumbled :
    ∃ backwards : AuditReport, backwards = { jumbled with
        audited := jumbled.audited.reverse, unaudited := jumbled.unaudited.reverse } ∧
      backwards.unaudited ≠ jumbled.unaudited ∧ backwards.audited ≠ jumbled.audited ∧
      backwards.diagnostics = jumbled.diagnostics ∧ backwards.text = jumbled.text ∧
      backwards.json = jumbled.json ∧
      ∃ paths uses, jumbled.diagnostics = .ok (diagnosticsOf paths uses) ∧
        paths.Perm jumbled.unaudited ∧ uses.Perm jumbled.audited := by
  have hshort : jumbled.IsShort := by
    refine ⟨?_, ?_⟩ <;> simp only [jumbled, AuditPath.IsShort] <;> decide +kernel
  obtain ⟨hperm, hlisted, -⟩ := shown_in_canonical_order jumbled
  obtain ⟨hdiagnostics, htext, hjson⟩ := hperm _ _ (List.reverse_perm _) (List.reverse_perm _)
  obtain ⟨paths, uses, hshown, hpaths, -, huses, -⟩ := hlisted hshort
  exact ⟨_, rfl, by decide, by decide, hdiagnostics, htext, hjson, paths, uses, hshown,
    hpaths, huses⟩

/-- A report of one path, whose only step is at a line with a digit too many. -/
def farAway : AuditReport :=
  let step : AuditStep :=
    { identifier := ['s'], location := { file := ['f'], line := 10 ^ Text.maxWrittenDigits } }
  { audited := [], unaudited := [[step]] }

/-- There is one unaudited path and no warning about it. -/
theorem farAway_not_shown :
    farAway.unaudited.length = 1 ∧ farAway.diagnostics = .error .longInteger ∧
      farAway.text = .error .longInteger := by
  have hlong : ¬ farAway.IsShort := by
    intro h
    have hshort := h.unaudited _ List.mem_cons_self _ List.mem_cons_self
    cases hshort.symm.trans Text.isLong_ten_pow
  have hdiagnostics := diagnostics_of_not_isShort hlong
  exact ⟨rfl, hdiagnostics, by rw [text, hdiagnostics]; rfl⟩

end AuditReport

end CallAudit
