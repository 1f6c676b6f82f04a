import CallAudit.Proofs.Ingesting
import CallAudit.Proofs.Loading
import Mathlib.Data.List.DropRight

/-!
# Refused record files

Which record files are refused is said here without the loops that read them. The lines of a text
are those between its line ends (`Text.HasLines`). A line offends if it is not blank and holds no
record that is allowed (`Ingest.Offends`). Reading a file stops at the first line that offends,
whatever has been read before (`Ingest.foldLines_eq_error`), and what comes after the reading never
blames a record (`Ingest.run_error_of_read`). So an ingest is refused exactly if a line offends, it
names the first one, and it has not done anything (`Ingest.refused_at_first_offence`).
-/

namespace CallAudit

/-! ## Lines of a text -/

namespace Text

variable {t line rest : Text} {lines : List Text}

/-- The character that ends a line once all line ends are the same. -/
abbrev lineFeed : CodePoint := CodePoint.ofChar '\n'

/-- The character that ends a line or is the first of two that do. -/
abbrev carriageReturn : CodePoint := CodePoint.ofChar '\r'

/-- A text within one line. -/
def Unbroken (line : Text) : Prop := ∀ c ∈ line, c ≠ lineFeed ∧ c ≠ carriageReturn

/-- What may end a line before the rest of a text. A CR with an LF after it is no end of its own. -/
inductive LineEnd (rest : Text) : Text → Prop
  | lf : LineEnd rest [lineFeed]
  | crlf : LineEnd rest [carriageReturn, lineFeed]
  | cr (h : rest.head? ≠ some lineFeed) : LineEnd rest [carriageReturn]

/-- A text has these lines, the last of which has no end. -/
inductive HasLines : Text → List Text → Prop
  | last {line : Text} (hline : Unbroken line) : HasLines line [line]
  | next {line ending rest : Text} {lines : List Text} (hline : Unbroken line)
      (hend : LineEnd rest ending)
      (hrest : HasLines rest lines) : HasLines (line ++ ending ++ rest) (line :: lines)

theorem unifyNewlines_cons {c : CodePoint} (hc : c ≠ carriageReturn) (rest : Text) :
    unifyNewlines (c :: rest) = c :: unifyNewlines rest := by
  rw [unifyNewlines.eq_def]
  exact if_neg hc

/-- Unifying line ends keeps what stands within a line. -/
theorem unifyNewlines_unbroken_append (hline : Unbroken line) (rest : Text) :
    unifyNewlines (line ++ rest) = line ++ unifyNewlines rest := by
  induction line with
  | nil => rfl
  | cons c line ih =>
    rw [List.cons_append, unifyNewlines_cons (hline c List.mem_cons_self).2,
      ih fun d hd => hline d (List.mem_cons_of_mem c hd), List.cons_append]

/-- A line end of any kind becomes a line feed. -/
theorem unifyNewlines_lineEnd {ending : Text} (h : LineEnd rest ending) :
    unifyNewlines (ending ++ rest) = lineFeed :: unifyNewlines rest := by
  cases h with
  | lf => exact unifyNewlines_cons (by decide) rest
  | crlf => simp [unifyNewlines]
  | cr h =>
    cases rest with
    | nil => simp [unifyNewlines]
    | cons d rest =>
      have hd : d ≠ lineFeed := by simpa using h
      rw [List.singleton_append, unifyNewlines, if_pos rfl, if_neg hd]

/-- A text without line ends is one line. -/
theorem splitOn_unbroken (hline : Unbroken line) : splitOn lineFeed line = [line] := by
  induction line with
  | nil => rfl
  | cons c line ih =>
    rw [splitOn, if_neg (hline c List.mem_cons_self).1,
      ih fun d hd => hline d (List.mem_cons_of_mem c hd)]

/-- A text is split at its first line feed. -/
theorem splitOn_unbroken_append (hline : Unbroken line) (rest : Text) :
    splitOn lineFeed (line ++ lineFeed :: rest) = line :: splitOn lineFeed rest := by
  induction line with
  | nil => simp [splitOn]
  | cons c line ih =>
    rw [List.cons_append, splitOn, if_neg (hline c List.mem_cons_self).1,
      ih fun d hd => hline d (List.mem_cons_of_mem c hd)]

/-- A character that ends no line belongs to the first one. -/
theorem HasLines.cons {c : CodePoint} (hc : c ≠ lineFeed ∧ c ≠ carriageReturn)
    (h : HasLines t (line :: lines)) : HasLines (c :: t) ((c :: line) :: lines) := by
  have hcons {line : Text} (hline : Unbroken line) : Unbroken (c :: line) :=
    List.forall_mem_cons.2 ⟨hc, hline⟩
  cases h with
  | last hline => exact .last (hcons hline)
  | next hline hend hrest => exact .next (hcons hline) hend hrest

/-- Splitting a text at its unified line ends gives its lines. -/
theorem hasLines_splitOn (t : Text) : HasLines t (splitOn lineFeed (unifyNewlines t)) := by
  have hnil : Unbroken [] := by simp [Unbroken]
  -- a text that begins with a line end begins with an empty line
  have hend {ending rest : Text} (h : LineEnd rest ending)
      (hrest : HasLines rest (splitOn lineFeed (unifyNewlines rest))) :
      HasLines (ending ++ rest) (splitOn lineFeed (unifyNewlines (ending ++ rest))) := by
    rw [unifyNewlines_lineEnd h, splitOn, if_pos rfl]
    exact .next hnil h hrest
  induction t using unifyNewlines.induct with
  | case1 => exact .last hnil
  | case2 rest ih =>
    cases rest with
    | nil => exact hend (.cr (by simp)) (.last hnil)
    | cons d rest =>
      by_cases hd : d = lineFeed
      · subst hd
        exact hend .crlf ih.1
      · exact hend (.cr (by simpa using hd)) ih.2
  | case3 c rest hc ih =>
    by_cases hlf : c = lineFeed
    · subst hlf
      exact hend .lf ih
    · rw [unifyNewlines_cons hc, splitOn, if_neg hlf]
      cases hlines : splitOn lineFeed (unifyNewlines rest) with
      | nil =>
        rw [hlines] at ih
        cases ih
      | cons line lines =>
        rw [hlines] at ih
        exact ih.cons ⟨hlf, hc⟩

/-- Every text has lines, and only one way. -/
theorem hasLines_iff : HasLines t lines ↔ lines = splitOn lineFeed (unifyNewlines t) := by
  constructor
  · intro h
    induction h with
    | last hline =>
      have hunify := unifyNewlines_unbroken_append hline []
      rw [List.append_nil, unifyNewlines, List.append_nil] at hunify
      rw [hunify, splitOn_unbroken hline]
    | next hline hend _ ih =>
      rw [List.append_assoc, unifyNewlines_unbroken_append hline, unifyNewlines_lineEnd hend,
        splitOn_unbroken_append hline, ← ih]
  · rintro rfl
    exact hasLines_splitOn t

/-- Nothing is left of a line exactly if all of it is blank. -/
theorem trim_eq_nil : trim line = [] ↔ ∀ c ∈ line, isBlank c = true := by
  change (line.dropWhile isBlank).rdropWhile isBlank = [] ↔ _
  rw [List.rdropWhile_eq_nil_iff]
  constructor
  · intro h
    -- the first code point that is kept is not blank
    have hnone : line.dropWhile isBlank = [] := by
      by_contra hne
      have hhead := List.head_dropWhile_not isBlank hne
      rw [h _ (List.head_mem hne)] at hhead
      cases hhead
    exact List.dropWhile_eq_nil_iff.1 hnone
  · intro h
    rw [List.dropWhile_eq_nil_iff.2 h]
    simp

end Text

namespace Ingest

open Text Store

variable {α β : Type} {format : RecordFormat α} {source text : Text} {reason : RefusalReason}
  {e : Failure}
variable {bad : Text → RefusalReason → Prop} {lines : List Text} {files : FileTree} {w w' : World}

/-! ## Lines that offend -/

/-- A text is a record of a format. -/
def IsRecord (format : RecordFormat α) (text : Text) (r : α) : Prop :=
  ∃ fields, Json.read Json.inputDialect text = .ok (.obj fields) ∧
    format.ofPayload (.obj fields) = .ok r

/-- A text is not a record of a format, for a reason. -/
inductive NotRecord (format : RecordFormat α) (text : Text) : RefusalReason → Prop
  | notObject (h : ∀ fields, Json.read Json.inputDialect text ≠ .ok (.obj fields)) :
      NotRecord format text (.because "record is not a JSON object")
  | invalid {fields : List (Text × Json)} {e : Invalid}
      (hread : Json.read Json.inputDialect text = .ok (.obj fields))
      (h : format.ofPayload (.obj fields) = .error e) : NotRecord format text (.invalid e)

/-- A text is not a marking that is allowed, for a reason: an entry point has no type arguments. -/
inductive BadMarking (text : Text) : RefusalReason → Prop
  | notRecord {reason : RefusalReason} (h : NotRecord MarkingRecord.format text reason) :
    BadMarking text reason
  | generic {r : MarkingRecord} (hr : IsRecord MarkingRecord.format text r)
      (hannotated : r.marking.isAnnotated = true)
      (hentry : r.marking.isEntryPoint = true) (hname : openBracket ∈ r.name) :
      BadMarking text (.because ("entry point " ++ Text.quoted r.name ++
        " must be a non-generic function"))

/-- A line offends if it is not blank and what it holds is bad. -/
def Offends (bad : Text → RefusalReason → Prop) (line : Text) (reason : RefusalReason) : Prop :=
  (∃ c ∈ line, isBlank c = false) ∧ bad (trim line) reason

/-- The first line that offends has this number, counted from one. -/
def FirstOffence (bad : Text → RefusalReason → Prop) (lines : List Text) (number : Nat)
    (reason : RefusalReason) : Prop :=
  ∃ before line after, lines = before ++ line :: after ∧ number = before.length + 1 ∧
    Offends bad line reason ∧
    ∀ earlier ∈ before, ∀ reason, ¬ Offends bad earlier reason

/-- A line that offends is the first one to do so if it comes first. -/
theorem firstOffence_cons_self {line : Text} (h : ∃ reason, Offends bad line reason)
    {rest : List Text} {number : Nat} :
    FirstOffence bad (line :: rest) number reason ↔ number = 1 ∧ Offends bad line reason := by
  constructor
  · rintro ⟨before, offender, after, hlines, rfl, hoffends, hbefore⟩
    cases before with
    | nil =>
      obtain ⟨rfl, -⟩ := List.cons.inj hlines
      exact ⟨rfl, hoffends⟩
    | cons first before =>
      obtain ⟨rfl, -⟩ := List.cons.inj hlines
      obtain ⟨reason', h⟩ := h
      exact absurd h (hbefore line List.mem_cons_self reason')
  · rintro ⟨rfl, hoffends⟩
    exact ⟨[], line, rest, rfl, rfl, hoffends, by simp⟩

/-- A line that does not offend only counts. -/
theorem firstOffence_cons {line : Text} (h : ∀ reason, ¬ Offends bad line reason) {rest : List Text}
    {number : Nat} :
    FirstOffence bad (line :: rest) number reason ↔
      ∃ n, number = n + 1 ∧ FirstOffence bad rest n reason := by
  constructor
  · rintro ⟨before, offender, after, hlines, rfl, hoffends, hbefore⟩
    cases before with
    | nil =>
      obtain ⟨rfl, -⟩ := List.cons.inj hlines
      exact absurd hoffends (h reason)
    | cons first before =>
      obtain ⟨-, rfl⟩ := List.cons.inj hlines
      exact ⟨_, rfl, before, offender, after, rfl, rfl, hoffends, fun earlier he =>
        hbefore earlier (List.mem_cons_of_mem first he)⟩
  · rintro ⟨n, rfl, before, offender, after, rfl, rfl, hoffends, hbefore⟩
    exact ⟨line :: before, offender, after, rfl, rfl, hoffends, List.forall_mem_cons.2 ⟨h, hbefore⟩⟩

/-- If a line offends, then there is a first one that does. -/
theorem exists_firstOffence :
    (∃ number reason, FirstOffence bad lines number reason) ↔
      ∃ line ∈ lines, ∃ reason, Offends bad line reason := by
  constructor
  · rintro ⟨number, reason, before, line, after, rfl, -, hoffends, -⟩
    exact ⟨line, by simp, reason, hoffends⟩
  · rintro ⟨line, hline, reason, hoffends⟩
    induction lines with
    | nil => cases hline
    | cons first rest ih =>
      by_cases hfirst : ∃ reason, Offends bad first reason
      · obtain ⟨reason, hoffends⟩ := hfirst
        exact ⟨1, reason, (firstOffence_cons_self ⟨reason, hoffends⟩).2 ⟨rfl, hoffends⟩⟩
      · rw [not_exists] at hfirst
        rcases List.mem_cons.1 hline with rfl | hline
        · exact absurd hoffends (hfirst reason)
        · obtain ⟨number, reason, hrest⟩ := ih hline
          exact ⟨number + 1, reason, (firstOffence_cons hfirst).2 ⟨number, rfl, hrest⟩⟩

/-! ## Reading up to the first offence -/

/-- A line that is not nested too deeply is refused exactly if it is bad, whatever has been read
before. -/
def Refuses (add : β → Nat × Text → Except Failure β) (bad : Text → RefusalReason → Prop)
    (source : Text) : Prop :=
  ∀ acc number text e, Json.read Json.inputDialect text ≠ .error .tooDeep →
    (add acc (number, text) = .error e ↔ ∃ reason, bad text reason ∧
      e = .invalidRecord source number reason)

/-- An object is read if and only if the text holds one. -/
theorem readObject_eq_some {fields : List (Text × Json)} :
    Json.readObject text = .ok (some fields) ↔
      Json.read Json.inputDialect text = .ok (.obj fields) := by
  unfold Json.readObject
  split <;> simp_all

/-- A text that is not nested too deeply and holds no object is read as none. -/
theorem readObject_eq_none (hdeep : Json.read Json.inputDialect text ≠ .error .tooDeep)
    (h : ∀ fields, Json.read Json.inputDialect text ≠ .ok (.obj fields)) :
    Json.readObject text = .ok none := by
  unfold Json.readObject
  split
  · next fields hread => exact absurd hread (h fields)
  · rfl
  · rfl
  · next hread => exact absurd hread hdeep

/-- A line is taken for a record if and only if its text holds it. -/
theorem recordOf_eq_ok_iff {line : Nat × Text} {r : α} :
    recordOf format source line = .ok r ↔ IsRecord format line.2 r := by
  unfold recordOf IsRecord
  simp only [← readObject_eq_some]
  cases Json.readObject line.2 with
  | error fault => simp
  | ok object =>
    cases object with
    | none => simp
    | some fields =>
      cases hr : format.ofPayload (.obj fields) with
      | error fault => simp [hr, Except.mapError]
      | ok r' => simp [hr, Except.mapError]

/-- A line that is not nested too deeply is refused if and only if its text holds no record. -/
theorem recordOf_eq_error (hdeep : Json.read Json.inputDialect text ≠ .error .tooDeep)
    {number : Nat} :
    recordOf format source (number, text) = .error e ↔
      ∃ reason, NotRecord format text reason ∧ e = .invalidRecord source number reason := by
  unfold recordOf
  by_cases hobject : ∃ fields, Json.read Json.inputDialect text = .ok (.obj fields)
  · obtain ⟨fields, hread⟩ := hobject
    rw [readObject_eq_some.2 hread]
    constructor
    · intro h
      cases hpayload : format.ofPayload (.obj fields) with
      | error fault =>
        simp only [hpayload, Except.mapError] at h
        exact ⟨.invalid fault, .invalid hread hpayload, (Except.error.inj h).symm⟩
      | ok r => simp [hpayload, Except.mapError] at h
    · rintro ⟨reason, hbad, rfl⟩
      cases hbad with
      | notObject hnone => exact absurd hread (hnone fields)
      | invalid hread' hpayload =>
        cases hread.symm.trans hread'
        simp [hpayload, Except.mapError]
  · rw [not_exists] at hobject
    rw [readObject_eq_none hdeep hobject]
    constructor
    · intro h
      exact ⟨_, .notObject hobject, (Except.error.inj h).symm⟩
    · rintro ⟨reason, hbad, rfl⟩
      cases hbad with
      | notObject => rfl
      | invalid hread => exact absurd hread (hobject _)

/-- A line of markings is refused if it holds no record or marks a generic entry point. -/
theorem refuses_addMarkingLine (source : Text) :
    Refuses (addMarkingLine source) BadMarking source := by
  intro items number text e hdeep
  have hnot {e : Failure} : recordOf MarkingRecord.format source (number, text) = .error e ↔ _ :=
    recordOf_eq_error hdeep
  rw [addMarkingLine]
  cases hrecord : recordOf MarkingRecord.format source (number, text) with
  | error fault =>
    obtain ⟨reason, hbad, rfl⟩ := hnot.1 hrecord
    constructor
    · intro h
      exact ⟨reason, .notRecord hbad, (Except.error.inj h).symm⟩
    · rintro ⟨reason', hbad', rfl⟩
      cases hbad' with
      | notRecord hbad' =>
        have hsame := hrecord.symm.trans (hnot.2 ⟨reason', hbad', rfl⟩)
        rw [Except.error.inj hsame]
      | generic hr =>
        rw [recordOf_eq_ok_iff.2 hr] at hrecord
        cases hrecord
  | ok r =>
    -- what is left to refuse of a record is a generic entry point
    have hr := recordOf_eq_ok_iff.1 hrecord
    constructor
    · intro h
      dsimp only at h
      split at h
      · cases h
      · next hannotated =>
        split at h
        · next hgeneric =>
          rw [Bool.and_eq_true, List.contains_iff_mem] at hgeneric
          exact ⟨_, .generic hr (by simpa using hannotated) hgeneric.1 hgeneric.2,
            (Except.error.inj h).symm⟩
        · cases h
    · rintro ⟨reason, hbad, rfl⟩
      cases hbad with
      | notRecord hbad =>
        rw [hnot.2 ⟨reason, hbad, rfl⟩] at hrecord
        cases hrecord
      | generic hr' hannotated hentry hname =>
        obtain rfl := Except.ok.inj (hrecord.symm.trans (recordOf_eq_ok_iff.2 hr'))
        simp [hannotated, hentry, hname, genericEntryPoint]

/-- A line of calls is refused if it holds no record. -/
theorem refuses_addCallLine (source : Text) :
    Refuses (addCallLine source) (NotRecord CallRecord.format) source := by
  intro calls number text e hdeep
  rw [← recordOf_eq_error hdeep, addCallLine]
  cases recordOf CallRecord.format source (number, text) <;> simp

/-- The texts of lines from a number on, blank ones left out. -/
def textsFrom (number : Nat) (lines : List Text) : List (Nat × Text) :=
  ((numbered number lines).map fun line => (line.1, trim line.2)).filter fun line => !line.2.isEmpty

/-- The numbered texts of a file are those of its lines. -/
theorem linesOf_eq {t : Text} (h : HasLines t lines) : linesOf t = textsFrom 1 lines := by
  rw [hasLines_iff.1 h]
  rfl

theorem textsFrom_blank {line : Text} (h : trim line = []) (number : Nat) (rest : List Text) :
    textsFrom number (line :: rest) = textsFrom (number + 1) rest := by
  simp [textsFrom, numbered, h]

theorem textsFrom_cons {line : Text} (h : trim line ≠ []) (number : Nat) (rest : List Text) :
    textsFrom number (line :: rest) = (number, trim line) :: textsFrom (number + 1) rest := by
  simp [textsFrom, numbered, h]

/-- A line is not blank if and only if something is left of it when it is trimmed. -/
theorem not_blank {line : Text} : (∃ c ∈ line, isBlank c = false) ↔ trim line ≠ [] := by
  rw [Ne, trim_eq_nil]
  simp

/-- **Reading stops at the first offence.** -/
theorem foldLines_eq_error {add : β → Nat × Text → Except Failure β} (hadd : Refuses add bad source)
    (hdeep : ∀ line ∈ lines, Json.read Json.inputDialect (trim line) ≠ .error .tooDeep) (acc : β)
    (n : Nat) :
    foldLines add acc (textsFrom (n + 1) lines) = .error e ↔
      ∃ number reason, FirstOffence bad lines number reason ∧
        e = .invalidRecord source (n + number : Nat) reason := by
  induction lines generalizing acc n with
  | nil => simp [textsFrom, numbered, foldLines, FirstOffence]
  | cons line rest ih =>
    rw [List.forall_mem_cons] at hdeep
    -- a line that does not offend leaves it to the lines after it, which are numbered one further
    have hnext (hline : ∀ reason, ¬ Offends bad line reason) (acc : β) :
        foldLines add acc (textsFrom (n + 1 + 1) rest) = .error e ↔
          ∃ number reason, FirstOffence bad (line :: rest) number reason ∧
            e = .invalidRecord source (n + number : Nat) reason := by
      rw [ih hdeep.2 acc (n + 1)]
      constructor
      · rintro ⟨number, reason, hfirst, rfl⟩
        exact ⟨number + 1, reason, (firstOffence_cons hline).2 ⟨number, rfl, hfirst⟩,
          by rw [Nat.add_right_comm]; rfl⟩
      · rintro ⟨_, reason, hfirst, rfl⟩
        obtain ⟨number, rfl, hrest⟩ := (firstOffence_cons hline).1 hfirst
        exact ⟨number, reason, hrest, by rw [Nat.add_right_comm]; rfl⟩
    by_cases hblank : trim line = []
    · rw [textsFrom_blank hblank]
      exact hnext (fun _ h => not_blank.1 h.1 hblank) acc
    · have hline {e : Failure} := hadd acc (n + 1) (trim line) e hdeep.1
      rw [textsFrom_cons hblank, foldLines]
      cases hresult : add acc (n + 1, trim line) with
      | error fault =>
        obtain ⟨reason, hbad, rfl⟩ := hline.1 hresult
        have hoffends : Offends bad line reason := ⟨not_blank.2 hblank, hbad⟩
        constructor
        · intro h
          exact ⟨1, reason, (firstOffence_cons_self ⟨reason, hoffends⟩).2 ⟨rfl, hoffends⟩,
            (Except.error.inj h).symm⟩
        · rintro ⟨number, reason', hfirst, rfl⟩
          obtain ⟨rfl, hoffends'⟩ := (firstOffence_cons_self ⟨reason, hoffends⟩).1 hfirst
          exact hresult.symm.trans (hline.2 ⟨reason', hoffends'.2, rfl⟩)
      | ok acc' =>
        refine hnext (fun reason hoffends => ?_) acc'
        have herror := hline.2 ⟨reason, hoffends.2, rfl⟩
        rw [hresult] at herror
        cases herror

/-- The lines of a record file, if there is one. -/
inductive GivenLines (files : FileTree) : Option Path → List Text → Prop
  | leftOut : GivenLines files none []
  | file {path : Path} {bytes : List UInt8} {t : Text} {lines : List Text}
      (hbytes : files.readBytes path = .ok bytes)
      (ht : Utf8.decode bytes = .ok t) (hlines : HasLines t lines) :
        GivenLines files (some path) lines

section

variable {load : FileTree → Path → Except Failure (List β)}
  {add : Text → List β → Nat × Text → Except Failure (List β)}
variable (hload : ∀ files path, load files path =
  (recordLines files path).bind (foldLines (add path.text) []))
variable (hadd : ∀ source, Refuses (add source) bad source) {path : Option Path}
  (h : GivenLines files path lines)
variable (hdeep : ∀ line ∈ lines, Json.read Json.inputDialect (trim line) ≠ .error .tooDeep)
include hload hadd h hdeep

/-- A record file that can be read is refused for its first offence. -/
theorem given_eq_error :
    given load files path = .error e ↔
      ∃ p number reason, path = some p ∧ FirstOffence bad lines number reason ∧
        e = .invalidRecord p.text (number : Nat) reason := by
  cases h with
  | leftOut => simp [given]
  | file hbytes ht hlines =>
    rename_i p bytes t
    have hrecordLines : recordLines files p = .ok (textsFrom 1 lines) := by
      simp [recordLines, readLines, hbytes, ht, Except.mapError, linesOf_eq hlines]
    have hfold {e : Failure} := foldLines_eq_error (e := e) (hadd p.text) hdeep [] 0
    rw [given, hload, hrecordLines]
    constructor
    · intro hresult
      obtain ⟨number, reason, hfirst, rfl⟩ := hfold.1 hresult
      exact ⟨p, number, reason, rfl, hfirst, by rw [Nat.zero_add]⟩
    · rintro ⟨_, number, reason, ⟨rfl⟩, hfirst, rfl⟩
      exact hfold.2 ⟨number, reason, hfirst, by rw [Nat.zero_add]⟩

/-- A file cannot be loaded if and only if one of its lines offends. -/
theorem exists_given_error :
    (∃ e, given load files path = .error e) ↔
      ∃ line ∈ lines, ∃ reason, Offends bad line reason := by
  rw [← exists_firstOffence]
  constructor
  · rintro ⟨e, he⟩
    obtain ⟨-, number, reason, -, hfirst, -⟩ := (given_eq_error hload hadd h hdeep).1 he
    exact ⟨number, reason, hfirst⟩
  · rintro ⟨number, reason, hfirst⟩
    have hpath : ∃ p, path = some p := by
      cases h with
      | leftOut =>
        obtain ⟨before, line, after, hlines, -⟩ := hfirst
        simp at hlines
      | file => exact ⟨_, rfl⟩
    obtain ⟨p, hpath⟩ := hpath
    exact ⟨_, (given_eq_error hload hadd h hdeep).2 ⟨p, number, reason, hpath, hfirst, rfl⟩⟩

end

theorem loadMarkings_eq_bind (files : FileTree) (path : Path) :
    loadMarkings files path = (recordLines files path).bind
      (foldLines (addMarkingLine path.text) []) := by
  unfold loadMarkings
  cases recordLines files path <;> rfl

theorem loadCalls_eq_bind (files : FileTree) (path : Path) :
    loadCalls files path = (recordLines files path).bind
      (foldLines (addCallLine path.text) []) := by
  unfold loadCalls
  cases recordLines files path <;> rfl

/-! ## Failures after the reading -/

/-- A failure that blames a record. -/
def IsRefusal (e : Failure) : Prop := ∃ source line reason, e = .invalidRecord source line reason

/-- An action never blames a record. -/
def NeverRefuses (x : Action α) : Prop := ∀ w e w', x.run.run w = (.error e, w') → ¬ IsRefusal e

/-- Actions in a row blame no record if none of them does. -/
theorem NeverRefuses.bind {x : Action α} {f : α → Action β} (hx : NeverRefuses x)
    (hf : ∀ a, NeverRefuses (f a)) : NeverRefuses (x >>= f) := by
  intro w e w' h
  rw [Action.run_bind] at h
  rcases hrun : x.run.run w with ⟨e' | a, w₁⟩
  · simp only [hrun] at h
    obtain ⟨he, -⟩ := Prod.mk.inj h
    rw [← Except.error.inj he]
    exact hx w e' w₁ hrun
  · simp only [hrun] at h
    exact hf a w₁ e w' h

theorem neverRefuses_pure (a : α) : NeverRefuses (pure a) := by
  intro w e w' h
  cases (Prod.mk.inj h).1

theorem neverRefuses_log (logger : Text) (level : Int) (message : Text) :
    NeverRefuses (Action.log logger level message) := by
  intro w e w' h
  cases (Prod.mk.inj h).1

/-- A store that is not available is not the fault of a record. -/
theorem not_isRefusal_storeUnavailable (path : Path) (reason : Text) :
    ¬ IsRefusal (.storeUnavailable path reason) := by
  rintro ⟨_, _, _, ⟨⟩⟩

theorem not_isRefusal_failureOf {path : Path} {reason : FileFault → Text} (fault : FileFault) :
    ¬ IsRefusal (Action.failureOf (fun fault => .storeUnavailable path (reason fault)) fault) := by
  rw [Action.failureOf]
  split
  · exact not_isRefusal_storeUnavailable path _
  · rintro ⟨_, _, _, ⟨⟩⟩

theorem neverRefuses_ofExcept {r : Except Failure α} (h : ∀ e, r = .error e → ¬ IsRefusal e) :
    NeverRefuses (Action.ofExcept r) := by
  intro w e w' hrun
  rw [Action.run_ofExcept] at hrun
  exact h e (Prod.mk.inj hrun).1

/-- Making directories blames no record. -/
theorem neverRefuses_makeDirectories (p path : Path) (reason : FileFault → Text) :
    NeverRefuses (Action.makeDirectories p fun fault => .storeUnavailable path (reason fault)) := by
  intro w e w' h
  rw [Action.run_makeDirectories] at h
  split at h
  · cases (Prod.mk.inj h).1
  · rw [← Except.error.inj (Prod.mk.inj h).1]
    exact not_isRefusal_failureOf _

/-- Writing a file blames no record. -/
theorem neverRefuses_write (p path : Path) (content : FileContent) (reason : FileFault → Text) :
    NeverRefuses (Action.write p content fun fault => .storeUnavailable path (reason fault)) := by
  intro w e w' h
  rw [Action.run_write] at h
  split at h
  · cases (Prod.mk.inj h).1
  · rw [← Except.error.inj (Prod.mk.inj h).1]
    exact not_isRefusal_failureOf _

/-- Taking the lock blames no record. -/
theorem neverRefuses_acquireLock (depstore : Path) : NeverRefuses (acquireLock depstore) :=
  (neverRefuses_makeDirectories _ _ _).bind fun _ => (neverRefuses_write _ _ _ _).bind fun _ =>
    neverRefuses_pure _

/-- Opening a store blames no record. -/
theorem neverRefuses_openAt (path : Path) (format : RecordFormat α) :
    NeverRefuses (openAt path format) := by
  refine (neverRefuses_makeDirectories _ _ _).bind fun _ => .bind ?_ fun t =>
    .bind ?_ fun content => ?_
  · intro w e w' h
    cases (Prod.mk.inj h).1
  · apply neverRefuses_ofExcept
    intro e h
    cases hcontent : tableContent t path with
    | error fault =>
      rw [hcontent] at h
      rw [← Except.error.inj h]
      exact not_isRefusal_storeUnavailable path _
    | ok content =>
      rw [hcontent] at h
      cases h
  · cases content with
    | table T changes => exact neverRefuses_pure _
    | bytes b =>
      dsimp only
      split
      · exact (neverRefuses_write _ _ _ _).bind fun _ => neverRefuses_pure _
      · refine .bind ?_ fun _ => (neverRefuses_write _ _ _ _).bind fun _ => neverRefuses_pure _
        intro w e w' h
        rw [← Except.error.inj (Prod.mk.inj h).1]
        exact not_isRefusal_storeUnavailable path _

/-- A batch that has no bytes is not refused as a line is. -/
theorem not_isRefusal_of_encodeBatch {batch : List (Text × α)}
    (h : encodeBatch format batch = .error e) : ¬ IsRefusal e := by
  induction batch with
  | nil => cases h
  | cons row rest ih =>
    rw [encodeBatch, encodeRecord] at h
    cases hrow : Utf8.encode (format.toStored row.2) with
    | error fault =>
      simp only [hrow] at h
      rw [← Except.error.inj h]
      rintro ⟨_, _, _, ⟨⟩⟩
    | ok bytes =>
      cases hrest : encodeBatch format rest with
      | error e' =>
        simp only [hrow, hrest] at h
        exact ih (Except.error.inj h ▸ hrest)
      | ok rows => simp [hrow, hrest] at h

theorem not_isRefusal_of_putAll {T : Table} {rows : List (Text × List UInt8)}
    (h : putAll T rows = .error e) : ¬ IsRefusal e := by
  induction rows generalizing T with
  | nil => cases h
  | cons row rest ih =>
    rw [putAll] at h
    split at h
    · rw [← Except.error.inj h]
      rintro ⟨_, _, _, ⟨⟩⟩
    · exact ih h

/-- Rows that cannot be written are not blamed on the record file. -/
theorem not_isRefusal_of_tableWith {T : Table} {batch : List (Text × α)}
    (h : tableWith format T batch = .error e) : ¬ IsRefusal e := by
  unfold tableWith at h
  cases hrows : encodeBatch format batch with
  | error e' =>
    rw [hrows] at h
    exact not_isRefusal_of_encodeBatch (Except.error.inj h ▸ hrows)
  | ok rows =>
    rw [hrows] at h
    exact not_isRefusal_of_putAll h

/-- Writing a batch blames no record. -/
theorem neverRefuses_putBatch (path : Path) (format : RecordFormat α) (batch : List (Text × α)) :
    NeverRefuses (putBatch (openAt path format) batch) := by
  cases batch with
  | nil => exact neverRefuses_pure ()
  | cons row rest =>
    intro w e w' h
    rcases hopen : (openAt path format).run.run w with ⟨e' | s, w₁⟩
    · obtain ⟨he, -⟩ := Prod.mk.inj ((Action.run_bind_error hopen _).symm.trans h)
      exact Except.error.inj he ▸ neverRefuses_openAt path format w e' w₁ hopen
    · obtain ⟨T, n, -, hreads, -, session, rfl⟩ := openAt_eq_ok hopen
      have hsave := (Action.run_bind_ok hopen _).symm.trans h
      cases hbatch : tableWith format T (row :: rest) with
      | error e' =>
        obtain ⟨he, -⟩ :=
          Prod.mk.inj ((Action.run_bind_error (run_save_error hreads rfl hbatch) _).symm.trans
            hsave)
        exact Except.error.inj he ▸ not_isRefusal_of_tableWith hbatch
      | ok T' =>
        obtain ⟨s', w₂, hok, -⟩ := run_save_ok hreads rfl hbatch
        cases (Prod.mk.inj ((Action.run_bind_ok hok _).symm.trans hsave)).1

/-! ## Refused ingests -/

variable {depstore : Path} {markingsFile callsFile : Option Path}

/-- An ingest blames a record only if it has failed to read one of the files, and then nothing has
been done. -/
theorem run_error_of_read (he : IsRefusal e) :
    (run depstore markingsFile callsFile).run.run w = (.error e, w') ↔
      w' = w ∧ (given loadMarkings w.files markingsFile = .error e ∨
        (∃ markings, given loadMarkings w.files markingsFile = .ok markings) ∧
          given loadCalls w.files callsFile = .error e) := by
  rw [run_eq, Action.run_bind, run_loadGiven]
  cases given loadMarkings w.files markingsFile with
  | error e' =>
    constructor
    · intro h
      obtain ⟨he', rfl⟩ := Prod.mk.inj h
      exact ⟨rfl, .inl (congrArg Except.error (Except.error.inj he'))⟩
    · rintro ⟨rfl, h | ⟨⟨_, h⟩, -⟩⟩
      · rw [Except.error.inj h]
      · cases h
  | ok markings =>
    dsimp only
    rw [Action.run_bind, run_loadGiven]
    cases given loadCalls w.files callsFile with
    | error e' =>
      constructor
      · intro h
        obtain ⟨he', rfl⟩ := Prod.mk.inj h
        exact ⟨rfl, .inr ⟨⟨markings, rfl⟩, congrArg Except.error (Except.error.inj he')⟩⟩
      · rintro ⟨rfl, h | ⟨-, h⟩⟩
        · cases h
        · rw [Except.error.inj h]
    | ok calls =>
      dsimp only
      -- both files have been read: all that follows may fail, but not for a record
      have hrest : NeverRefuses (do
          let _ ← acquireLock depstore
          putBatch (openMarkings depstore) markings
          putBatch (openCalls depstore) calls
          Action.log loggerName 20 ("ingested " ++ (summaryOf markings calls).shown depstore)
          return summaryOf markings calls) :=
        (neverRefuses_acquireLock depstore).bind fun _ =>
          (neverRefuses_putBatch _ _ markings).bind fun _ =>
            (neverRefuses_putBatch _ _ calls).bind fun _ =>
              (neverRefuses_log _ _ _).bind fun _ => neverRefuses_pure _
      constructor
      · intro h
        exact absurd he (hrest w e w' h)
      · rintro ⟨-, h | ⟨-, h⟩⟩ <;> cases h

/-- **Refused ingests.** Of two record files, which are UTF-8 and hold no line that is nested too
deeply, an ingest blames a record exactly if a line of one of them offends. It names the first line
that offends, of the markings file if one does so there and of the call-edges file otherwise, and
all files and directories are as they were. -/
theorem refused_at_first_offence (depstore : Path) (markingsFile callsFile : Option Path)
    (w : World) (markingLines callLines : List Text)
    (hmarkings : GivenLines w.files markingsFile markingLines)
    (hcalls : GivenLines w.files callsFile callLines)
    (hdeep : ∀ line ∈ markingLines ++ callLines,
      Json.read Json.inputDialect (trim line) ≠ .error .tooDeep) :
    ((∃ source number reason w',
        (run depstore markingsFile callsFile).run.run w =
          (.error (.invalidRecord source number reason), w')) ↔
      (∃ line ∈ markingLines, ∃ reason, Offends BadMarking line reason) ∨
        ∃ line ∈ callLines, ∃ reason, Offends (NotRecord CallRecord.format) line reason) ∧
    ∀ source number reason w',
      (run depstore markingsFile callsFile).run.run w =
        (.error (.invalidRecord source number reason), w') →
      w' = w ∧ ∃ n : Nat, number = n ∧
        ((∃ path, markingsFile = some path ∧ source = path.text ∧
          FirstOffence BadMarking markingLines n reason) ∨
          (∀ line ∈ markingLines, ∀ reason, ¬ Offends BadMarking line reason) ∧
            ∃ path, callsFile = some path ∧ source = path.text ∧
              FirstOffence (NotRecord CallRecord.format) callLines n reason) := by
  have hdeepM (line : Text) (hline : line ∈ markingLines) :=
    hdeep line (List.mem_append_left callLines hline)
  have hdeepC (line : Text) (hline : line ∈ callLines) :=
    hdeep line (List.mem_append_right markingLines hline)
  have hM {e : Failure} :=
    given_eq_error (e := e) loadMarkings_eq_bind refuses_addMarkingLine hmarkings hdeepM
  have hC {e : Failure} :=
    given_eq_error (e := e) loadCalls_eq_bind refuses_addCallLine hcalls hdeepC
  have hMiff := exists_given_error loadMarkings_eq_bind refuses_addMarkingLine hmarkings hdeepM
  have hCiff := exists_given_error loadCalls_eq_bind refuses_addCallLine hcalls hdeepC
  refine ⟨⟨?_, fun hoffence => ?_⟩, fun source number reason w' hrun => ?_⟩
  · rintro ⟨source, number, reason, w', hrun⟩
    -- a record is blamed by the reading of one of the files only
    obtain ⟨-, he | ⟨-, he⟩⟩ := (run_error_of_read ⟨source, number, reason, rfl⟩).1 hrun
    · exact .inl (hMiff.1 ⟨_, he⟩)
    · exact .inr (hCiff.1 ⟨_, he⟩)
  · cases hgiven : given loadMarkings w.files markingsFile with
    | error e =>
      obtain ⟨p, n, reason, -, -, rfl⟩ := hM.1 hgiven
      exact ⟨_, _, _, w, (run_error_of_read ⟨_, _, _, rfl⟩).2 ⟨rfl, .inl hgiven⟩⟩
    | ok markings =>
      -- the call-edges file is read after a markings file without offences
      have hnone : ¬ ∃ e, given loadMarkings w.files markingsFile = .error e := by simp [hgiven]
      obtain ⟨e, he⟩ := hCiff.2 (hoffence.resolve_left fun h => hnone (hMiff.2 h))
      obtain ⟨p, n, reason, -, -, rfl⟩ := hC.1 he
      exact ⟨_, _, _, w, (run_error_of_read ⟨_, _, _, rfl⟩).2 ⟨rfl, .inr ⟨⟨markings, hgiven⟩, he⟩⟩⟩
  · obtain ⟨rfl, he | ⟨⟨markings, hok⟩, he⟩⟩ :=
      (run_error_of_read ⟨source, number, reason, rfl⟩).1 hrun
    · obtain ⟨p, n, reason', hpath, hfirst, hreason⟩ := hM.1 he
      cases hreason
      exact ⟨rfl, n, rfl, .inl ⟨p, hpath, rfl, hfirst⟩⟩
    · obtain ⟨p, n, reason', hpath, hfirst, hreason⟩ := hC.1 he
      cases hreason
      refine ⟨rfl, n, rfl, .inr ⟨fun line hline reason hoffends => ?_, p, hpath, rfl, hfirst⟩⟩
      obtain ⟨e, herror⟩ := hMiff.2 ⟨line, hline, reason, hoffends⟩
      rw [hok] at herror
      cases herror

instance (dialect : Json.Dialect) (t : Text) (fault : Json.ReadFault) :
    Decidable (Json.read dialect t = .error fault) :=
  match Json.read dialect t with
  | .ok _ => isFalse (by simp)
  | .error e => decidable_of_iff (e = fault) (by simp)

/-- Markings with line ends of all kinds, blank lines and a generic entry point. -/
def genericMarkings : Text :=
  "\r\n \r" ++ lineOf MarkingRecord.format (markedAt 1 "a" { audited := some "g" }) ++
    Text.ofString "\n\n" ++ lineOf MarkingRecord.format
      (markedAt 2 "b<T>" { isEntryPoint := true }) ++
    Text.ofString "\r[]"

/-- A file of these markings, and a call-edges file that holds no object either. -/
def genericFiles : FileTree := { nodes := [fileOf "m" genericMarkings, fileOf "c" "[]"] }

/-- The ingest of these files. -/
def genericIngest : Except Failure Summary × World :=
  (run (pathOf "d") (some (pathOf "m")) (some (pathOf "c"))).run.run { files := genericFiles }

/-- The generic entry point is refused before the line that holds no object, and before the other
file. -/
theorem refused_at_first_offence_generic :
    ∃ reason, genericIngest = (.error (.invalidRecord "m" 5 reason), { files := genericFiles }) ∧
      FirstOffence BadMarking (splitOn lineFeed (unifyNewlines genericMarkings)) 5 reason := by
  have hvalues :
      (∀ line ∈ splitOn lineFeed (unifyNewlines genericMarkings) ++
          splitOn lineFeed (unifyNewlines "[]"),
        Json.read Json.inputDialect (trim line) ≠ .error .tooDeep) ∧
      genericIngest.1 = .error (.invalidRecord "m" 5
        (.because "entry point 'b<T>' must be a non-generic function")) ∧
      genericFiles.readBytes (pathOf "m") = .ok (genericMarkings.flatMap Utf8.encodePoint) ∧
      genericFiles.readBytes (pathOf "c") = .ok (("[]" : Text).flatMap Utf8.encodePoint) ∧
      isScalar genericMarkings = true := by
    decide +kernel
  obtain ⟨hdeep, hresult, hbytes, hbytes', hscalar⟩ := hvalues
  have hdecode {t : Text} (ht : isScalar t = true) :
      Utf8.decode (t.flatMap Utf8.encodePoint) = .ok t :=
    Utf8.decode_encode (Utf8.encode_eq_ok.2 ⟨ht, rfl⟩)
  have hmarkings : GivenLines genericFiles (some (pathOf "m")) _ :=
    .file hbytes (hdecode hscalar) (hasLines_splitOn genericMarkings)
  have hcalls : GivenLines genericFiles (some (pathOf "c")) _ :=
    .file hbytes' (hdecode (isScalar_ofString _)) (hasLines_splitOn "[]")
  have hrun := eq_mk_of_fst hresult
  obtain ⟨-, hfirst⟩ :=
    refused_at_first_offence (pathOf "d") (some (pathOf "m")) (some (pathOf "c"))
    { files := genericFiles } _ _ hmarkings hcalls hdeep
  obtain ⟨hunchanged, n, hn, hwhere⟩ := hfirst _ _ _ _ hrun
  obtain rfl : 5 = n := Int.ofNat.inj hn
  refine ⟨_, hunchanged ▸ hrun, ?_⟩
  rcases hwhere with ⟨-, -, -, hoffence⟩ | ⟨-, path, ⟨rfl⟩, hsource, -⟩
  · exact hoffence
  · exact absurd hsource (by decide)

end Ingest

end CallAudit
