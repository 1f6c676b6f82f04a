import CallAudit.Proofs.PrettyText
import CallAudit.Report.Document

/-!
# Reading reports back

The JSON text of a report is read as the report's document (`AuditReport.json_reads_back`). Each
part of a report is an object with distinct names, so its record is found again whatever the order
of the fields (`Json.ReadsAs`), and a part that holds others only passes this on.
-/

namespace CallAudit

open Checked

namespace Json

variable {α : Type} {check : Json → Checked α} {room : Nat} {v : Json} {a : α}

/-! ## Values whose canonical text is read back -/

/-- A value is written, with its fields in order, as JSON that a check takes for the given
record. -/
def ReadsAs (check : Json → Checked α) (room : Nat) (v : Json) (a : α) : Prop :=
  ∃ form, Value.WrittenAs room (.ofJson v) form ∧ check form = .ok a

/-- Texts of scalar values are read back. -/
theorem ReadsAs.text (room : Nat) {t : Text} (h : Text.isScalar t = true) :
    ReadsAs Checked.text room (.str t) t :=
  ⟨.str t, .text room h, rfl⟩

/-- Integers that fit are read back. -/
theorem ReadsAs.int (room : Nat) {i : Int} (h : FitsReader i) :
    ReadsAs Checked.int room (.int i) i :=
  ⟨.int i, .int room h, rfl⟩

/-- A list is read back if its items are. -/
theorem ReadsAs.list {toJson : α → Json} {as : List α}
    (h : ∀ a ∈ as, ReadsAs check room (toJson a) a) :
    ReadsAs (Checked.list check) (room + 1) (.arr (as.map toJson)) as := by
  have : Nonempty Json := ⟨.null⟩
  choose! form hform using h
  refine ⟨.arr (as.map form), ?_, ?_⟩
  · rw [Value.ofJson, Value.ofJsonItems_eq_map, List.map_map]
    refine .list (List.forall₂_map_left_iff.2 (List.forall₂_map_right_iff.2 ?_))
    exact List.forall₂_same.2 fun a ha => (hform a ha).1
  · have hitems := items_map (fun a ha => (hform a ha).2) 0
    rw [List.map_id'] at hitems
    exact hitems

end Json

open Json

/-! ## The parts of a report -/

/-- A location that can be stored is read back. -/
theorem SourceLocation.readsAs {l : SourceLocation} (h : l.isStorable = true) (room : Nat) :
    ReadsAs format.check (room + 1) (format.toJson l) l := by
  obtain ⟨hfile, hline⟩ := Bool.and_eq_true_iff.1 h
  obtain ⟨file, hfile, hfile'⟩ := ReadsAs.text room hfile
  obtain ⟨line, hline, hline'⟩ := ReadsAs.int room (of_decide_eq_true hline)
  refine ⟨_, .obj [("file", file), ("line", line)] ?_, ?_⟩
  · exact .cons ⟨rfl, by simp, hfile⟩ (.cons ⟨rfl, by simp, hline⟩ .nil)
  · simp [format, object, required, lookup?_orderedFields, lookup?, at_, hfile', hline', zip,
      Except.map]

namespace AuditStep

/-- The texts consist of scalar values, and the line has no more digits than a reader takes. -/
def isLegible (s : AuditStep) : Bool := Text.isScalar s.identifier && s.location.isStorable

/-- A step that is legible is read back. -/
theorem readsAs {s : AuditStep} (h : s.isLegible = true) (room : Nat) :
    ReadsAs format.check (room + 2) (format.toJson s) s := by
  obtain ⟨hidentifier, hlocation⟩ := Bool.and_eq_true_iff.1 h
  obtain ⟨identifier, hidentifier, hidentifier'⟩ := ReadsAs.text (room + 1) hidentifier
  obtain ⟨location, hlocation, hlocation'⟩ := SourceLocation.readsAs hlocation room
  refine ⟨_, .obj [("identifier", identifier), ("location", location)] ?_, ?_⟩
  · exact .cons ⟨rfl, by simp, hidentifier⟩ (.cons ⟨rfl, by simp, hlocation⟩ .nil)
  · simp [format, object, required, lookup?_orderedFields, lookup?, at_, hidentifier', hlocation',
      zip, Except.map]

end AuditStep

namespace AuditPath

/-- All steps are legible. -/
def isLegible (p : AuditPath) : Bool := p.all AuditStep.isLegible

theorem readsAs_steps {p : AuditPath} (h : p.isLegible = true) (room : Nat) :
    ReadsAs (Checked.list AuditStep.format.check) (room + 3)
      (.arr (p.map AuditStep.format.toJson)) p :=
  .list fun _ hs => AuditStep.readsAs (List.all_eq_true.1 h _ hs) room

/-- A path that is legible is read back. -/
theorem readsAs {p : AuditPath} (h : p.isLegible = true) (room : Nat) :
    ReadsAs format.check (room + 4) (format.toJson p) p := by
  obtain ⟨steps, hsteps, hsteps'⟩ := readsAs_steps h room
  refine ⟨_, .obj [("path", steps)] (.cons ⟨rfl, by simp, hsteps⟩ .nil), ?_⟩
  simp [format, object, required, lookup?_orderedFields, lookup?, at_, hsteps']

end AuditPath

namespace AuditedUse

/-- The escort consists of scalar values, and the path is legible. -/
def isLegible (u : AuditedUse) : Bool := Text.isScalar u.escort && AuditPath.isLegible u.path

/-- A use that is legible is read back. -/
theorem readsAs {u : AuditedUse} (h : u.isLegible = true) (room : Nat) :
    ReadsAs format.check (room + 4) (format.toJson u) u := by
  obtain ⟨hescort, hpath⟩ := Bool.and_eq_true_iff.1 h
  obtain ⟨escort, hescort, hescort'⟩ := ReadsAs.text (room + 3) hescort
  obtain ⟨steps, hsteps, hsteps'⟩ := AuditPath.readsAs_steps hpath room
  refine ⟨_, .obj [("escort", escort), ("path", steps)] ?_, ?_⟩
  · exact .cons ⟨rfl, by simp, hescort⟩ (.cons ⟨rfl, by simp, hsteps⟩ .nil)
  · simp [format, object, required, lookup?_orderedFields, lookup?, at_, hescort', hsteps', zip,
      Except.map]

end AuditedUse

namespace ReportSummary

/-- No number has more digits than a reader takes. -/
def isLegible (s : ReportSummary) : Bool :=
  decide (FitsReader s.entryPoints) && decide (FitsReader s.audited) &&
    decide (FitsReader s.unaudited)

/-- A summary that is legible is read back. -/
theorem readsAs {s : ReportSummary} (h : s.isLegible = true) (room : Nat) :
    ReadsAs format.check (room + 1) (format.toJson s) s := by
  simp only [isLegible, Bool.and_eq_true, decide_eq_true_eq] at h
  obtain ⟨⟨hentries, haudited⟩, hunaudited⟩ := h
  obtain ⟨entries, hentries, hentries'⟩ := ReadsAs.int room hentries
  obtain ⟨audited, haudited, haudited'⟩ := ReadsAs.int room haudited
  obtain ⟨unaudited, hunaudited, hunaudited'⟩ := ReadsAs.int room hunaudited
  refine ⟨_, .obj [("entry_points", entries), ("audited", audited), ("unaudited", unaudited)] ?_,
    ?_⟩
  · exact .cons ⟨rfl, by simp, hentries⟩
      (.cons ⟨rfl, by simp, haudited⟩ (.cons ⟨rfl, by simp, hunaudited⟩ .nil))
  · simp [format, object, required, lookup?_orderedFields, lookup?, at_, hentries', haudited',
      hunaudited', zip, Except.map]

end ReportSummary

/-- A document whose parts are legible is read back, as an object. -/
theorem ReportDocument.readsAs {d : ReportDocument} (hversion : FitsReader d.version)
    (hsummary : d.summary.isLegible = true) (haudited : d.audited.all AuditedUse.isLegible = true)
    (hunaudited : d.unaudited.all AuditPath.isLegible = true) (room : Nat) :
    ∃ fields, Value.WrittenAs (room + 6) (.ofJson (format.toJson d)) (.obj fields) ∧
      format.check (.obj fields) = .ok d := by
  obtain ⟨version, hversion, hversion'⟩ := ReadsAs.int (room + 5) hversion
  obtain ⟨summary, hsummary, hsummary'⟩ := ReportSummary.readsAs hsummary (room + 4)
  obtain ⟨audited, haudited, haudited'⟩ :=
    ReadsAs.list fun u hu => AuditedUse.readsAs (List.all_eq_true.1 haudited u hu) room
  obtain ⟨unaudited, hunaudited, hunaudited'⟩ :=
    ReadsAs.list fun p hp => AuditPath.readsAs (List.all_eq_true.1 hunaudited p hp) room
  refine ⟨_, .obj [("version", version), ("summary", summary), ("audited", audited),
    ("unaudited", unaudited)] ?_, ?_⟩
  · exact .cons ⟨rfl, by simp, hversion⟩ (.cons ⟨rfl, by simp, hsummary⟩
      (.cons ⟨rfl, by simp, haudited⟩ (.cons ⟨rfl, by simp, hunaudited⟩ .nil)))
  · simp [format, object, required, Checked.optional, lookup?_orderedFields, lookup?, at_,
      hversion', hsummary', haudited', hunaudited', zip, Except.map]

namespace AuditReport

/-- The identifiers, escorts and file names of a report consist of scalar values, and no line has
more digits than a reader takes. -/
def isLegible (r : AuditReport) : Bool :=
  r.audited.all AuditedUse.isLegible && r.unaudited.all AuditPath.isLegible

/-- The document of a legible report is legible. -/
theorem isLegible_document {r : AuditReport} (h : r.isLegible = true) :
    r.document.audited.all AuditedUse.isLegible = true ∧
      r.document.unaudited.all AuditPath.isLegible = true := by
  have haudited := (List.mergeSort_perm r.audited AuditedUse.le).all_eq (f := AuditedUse.isLegible)
  have hunaudited :=
    (List.mergeSort_perm r.unaudited AuditPath.le).all_eq (f := AuditPath.isLegible)
  exact Bool.and_eq_true_iff.1 (haudited ▸ hunaudited ▸ h)

/-- The JSON text of a legible report is written, and it is read as the report's document. -/
theorem readObject_json {r : AuditReport} (h : r.isLegible = true)
    (hcounts : r.document.summary.isLegible = true) :
    ∃ text fields, r.json = .ok text ∧ readObject text = .ok (some fields) ∧
      ReportDocument.format.ofPayload (.obj fields) = .ok r.document := by
  have hversion : FitsReader ReportDocument.formatVersion :=
    fitsReader_of_natAbs_lt (k := 1) (by decide) (by decide) (by decide)
  obtain ⟨haudited, hunaudited⟩ := isLegible_document h
  obtain ⟨fields, hwritten, hchecked⟩ :=
    ReportDocument.readsAs hversion hcounts haudited hunaudited 484
  refine ⟨_, fields, ?_, (hwritten.readObject_pretty (by decide)).2, ?_⟩
  · rw [json]
    exact congrArg (Except.map fun t => t ++ Text.ofString "\n") hwritten.prettyJson_eq
  · rw [RecordFormat.ofPayload, hchecked]

/-- A document lists the findings of its report in some order. -/
theorem perm_document (r : AuditReport) :
    r.document.audited.Perm r.audited ∧ r.document.unaudited.Perm r.unaudited :=
  ⟨List.mergeSort_perm _ _, List.mergeSort_perm _ _⟩

/-- **The JSON text of a report says what was reported.**

* It is an object, which is checked to be the report's document.
* The findings of the document are those of the report in another order, and its counts are the
  lengths of the report's lists.
* So two reports with the same text have the same findings, each as often.

The texts of a report have to consist of scalar values, and its numbers, which are the lines and the
three counts, may not have more digits than a reader takes; no list in a memory is too long for
that. -/
theorem json_reads_back (r : AuditReport) (hlegible : r.isLegible = true)
    (hcounts : r.document.summary.isLegible = true) :
    (∃ text fields, r.json = .ok text ∧ readObject text = .ok (some fields) ∧
      ReportDocument.format.ofPayload (.obj fields) = .ok r.document) ∧
    r.document.audited.Perm r.audited ∧
    r.document.unaudited.Perm r.unaudited ∧
    r.document.summary =
      { entryPoints := r.entryPoints.length, audited := r.audited.length,
        unaudited := r.unaudited.length } ∧
    ∀ other : AuditReport, other.isLegible = true → other.document.summary.isLegible = true →
      other.json = r.json → other.audited.Perm r.audited ∧ other.unaudited.Perm r.unaudited := by
  have hperm := r.perm_document
  refine ⟨readObject_json hlegible hcounts, hperm.1, hperm.2, rfl, ?_⟩
  intro other hother hothers hjson
  obtain ⟨text, fields, htext, hread, hchecked⟩ := readObject_json hlegible hcounts
  obtain ⟨text', fields', htext', hread', hchecked'⟩ := readObject_json hother hothers
  -- the same text is read as the same fields, and these as the same document
  obtain rfl := Except.ok.inj (htext'.symm.trans (hjson.trans htext))
  obtain rfl := Option.some.inj (Except.ok.inj (hread'.symm.trans hread))
  have hdocument : r.document = other.document := Except.ok.inj (hchecked.symm.trans hchecked')
  have hperm' := other.perm_document
  rw [← hdocument] at hperm'
  exact ⟨hperm'.1.symm.trans hperm.1, hperm'.2.symm.trans hperm.2⟩

/-- A report whose texts hold characters that are escaped, one of them as a pair of surrogates, and
which lists one path twice. -/
def quoted : AuditReport :=
  let step : AuditStep :=
    { identifier := "sign\"\\<😀,>", location := { file := "src\n/ü.rs", line := -40 } }
  { entryPoints := ["main"]
    audited := [{ escort := "b", path := [step] }, { escort := "\u007fa", path := [] }]
    unaudited := [[step], [step]] }

/-- The texts of this report are read back with all their characters. -/
theorem json_reads_back_quoted :
    ∃ text fields d, quoted.json = .ok text ∧ readObject text = .ok (some fields) ∧
      ReportDocument.format.ofPayload (.obj fields) = .ok d ∧
      d.audited.Perm quoted.audited ∧ d.unaudited.Perm quoted.unaudited ∧
      d.summary = { entryPoints := 1, audited := 2, unaudited := 2 } := by
  have hline : FitsReader (-40) :=
    fitsReader_of_natAbs_lt (k := 2) (by decide) (by decide) (by decide)
  have hone : FitsReader 1 := fitsReader_of_natAbs_lt (k := 1) (by decide) (by decide) (by decide)
  have htwo : FitsReader 2 := fitsReader_of_natAbs_lt (k := 1) (by decide) (by decide) (by decide)
  have hlegible : quoted.isLegible = true := by
    simp [quoted, isLegible, AuditedUse.isLegible, AuditPath.isLegible, AuditStep.isLegible,
      SourceLocation.isStorable, hline]
  have hcounts : quoted.document.summary.isLegible = true := by
    simp [quoted, document, ReportSummary.isLegible, hone, htwo]
  obtain ⟨⟨text, fields, htext, hread, hchecked⟩, haudited, hunaudited, hsummary, -⟩ :=
    json_reads_back quoted hlegible hcounts
  exact ⟨text, fields, _, htext, hread, hchecked, haudited, hunaudited, hsummary⟩

end AuditReport

end CallAudit
