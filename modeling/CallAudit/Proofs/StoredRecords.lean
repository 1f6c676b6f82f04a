import CallAudit.Depstore.Store
import CallAudit.Proofs.Reading

/-!
# Stored records

A record that a store writes is read back as it was. The text of a record is JSON without
floating-point numbers and with distinct names, so the reader gives back its value (`Plain`), and
the checks of a format undo its encoder. What stands in the way is a surrogate, for which there are
no bytes, and an integer with more digits than the reader takes, which makes the record unreadable
but never another one.
-/

namespace CallAudit

/-! ## Texts of scalar values -/

namespace Text

/-- No character is a surrogate. -/
theorem isSurrogate_ofChar (c : Char) : (CodePoint.ofChar c).isSurrogate = false := by
  have hvalid := c.valid
  simp only [UInt32.isValidChar, Nat.isValidChar] at hvalid
  have hval : (CodePoint.ofChar c).val = c.val.toNat := rfl
  rw [CodePoint.isSurrogate, hval, Bool.and_eq_false_iff, decide_eq_false_iff_not,
    decide_eq_false_iff_not]
  omega

/-- A string consists of scalar values. -/
@[simp] theorem isScalar_ofString (s : String) : isScalar (ofString s) = true := by
  rw [isScalar, ofString, List.all_map, List.all_eq_true]
  intro c _
  rw [Function.comp_apply, isSurrogate_ofChar]
  rfl

theorem ofChar_injective {a b : Char} (h : CodePoint.ofChar a = CodePoint.ofChar b) : a = b := by
  have hval : (CodePoint.ofChar a).val = (CodePoint.ofChar b).val := by rw [h]
  exact Char.toNat_inj.1 hval

/-- Different strings are different texts. -/
@[simp] theorem ofString_inj {a b : String} : ofString a = ofString b ↔ a = b := by
  refine ⟨fun h => String.toList_inj.1 ?_, congrArg ofString⟩
  exact List.map_injective_iff.2 (fun _ _ => ofChar_injective) h

theorem isSurrogate_of_lt {c : CodePoint} (h : c.val < 0xD800) : c.isSurrogate = false := by
  simp [CodePoint.isSurrogate, Nat.not_le.2 h]

@[simp] theorem isScalar_ofNat (n : Nat) : isScalar (ofNat n) = true := by
  rw [isScalar, List.all_eq_true]
  intro c hc
  have hdigit := Json.isDigit_of_mem_ofNat hc
  rw [CodePoint.isDigit, Bool.and_eq_true, decide_eq_true_eq, decide_eq_true_eq] at hdigit
  rw [isSurrogate_of_lt (by omega)]
  rfl

/-- An integer is written in scalar values. -/
@[simp] theorem isScalar_ofInt (i : Int) : isScalar (ofInt i) = true := by
  cases i with
  | ofNat n => exact isScalar_ofNat n
  | negSucc n => rw [ofInt, isScalar_cons, isSurrogate_ofChar, isScalar_ofNat]; rfl

theorem isScalar_flatMap {α : Type} (f : α → Text) (l : List α) :
    isScalar (l.flatMap f) = l.all fun a => isScalar (f a) := by
  induction l with
  | nil => rfl
  | cons a l ih => rw [List.flatMap_cons, isScalar_append, ih, List.all_cons]

/-- Texts that are joined consist of scalar values if all of them do. -/
@[simp] theorem isScalar_join {sep : Text} (hsep : isScalar sep = true) (parts : List Text) :
    isScalar (join sep parts) = parts.all isScalar := by
  cases parts with
  | nil => rfl
  | cons a parts =>
    simp only [join, Json.intercalate_cons, isScalar_append, isScalar_flatMap, hsep, Bool.true_and,
      List.all_cons]

end Text

namespace Json

theorem isScalar_hex (width n : Nat) : Text.isScalar (Text.hex width n) = true := by
  have hdigit : ∀ m : Fin 16, (CodePoint.ofHexDigit m).isSurrogate = false := by decide
  induction width generalizing n with
  | zero => rfl
  | succ width ih =>
    rw [Text.hex, Text.isScalar_append, ih, Text.isScalar_cons,
      hdigit ⟨n % 16, Nat.mod_lt _ (by omega)⟩]
    rfl

/-- Raw strings keep surrogates as they are. -/
theorem isScalar_stringPoint (c : CodePoint) :
    Text.isScalar (stringPoint .raw c) = !c.isSurrogate := by
  have hletter (s : String) {n : Nat} (hn : c.val = n) (h : n < 0xD800) :
      Text.isScalar (Text.ofString s) = !c.isSurrogate := by
    rw [Text.isScalar_ofString, Text.isSurrogate_of_lt (hn ▸ h)]
    rfl
  unfold stringPoint
  split
  · next hc => exact hletter _ hc (by decide)
  · next hc => exact hletter _ hc (by decide)
  · next hc => exact hletter _ hc (by decide)
  · next hc => exact hletter _ hc (by decide)
  · next hc => exact hletter _ hc (by decide)
  · next hc => exact hletter _ hc (by decide)
  · next hc => exact hletter _ hc (by decide)
  · split
    · next h =>
      rw [unitEscape, Text.isScalar_append, Text.isScalar_ofString, isScalar_hex,
        Text.isSurrogate_of_lt (by omega)]
      rfl
    · rw [if_pos (by simp), Text.isScalar_cons]
      exact Bool.and_true _

/-- A string that is written raw consists of scalar values if and only if its text does. -/
@[simp] theorem isScalar_stringText (t : Text) :
    Text.isScalar (stringText .raw t) = Text.isScalar t := by
  rw [stringText, Text.isScalar_append, Text.isScalar_append, Text.isScalar_flatMap,
    Text.isScalar_ofString, Bool.true_and, Bool.and_true]
  simp only [isScalar_stringPoint]
  rfl

end Json

/-! ## Formats -/

namespace RecordFormat

variable {α β : Type} {format : RecordFormat α} {room : Nat}

/-- What is written of a record is read back as the record. -/
structure Faithful (format : RecordFormat α) (room : Nat) : Prop where
  plain : ∀ a, Text.isScalar (format.toStored a) = true → Json.Plain room (format.toJson a)
  check : ∀ a, format.check (format.toJson a) = .ok a

/-- A record has bytes, and they can be read back. -/
def CanStore (format : RecordFormat α) (a : α) : Prop :=
  Text.isScalar (format.toStored a) = true ∧ .bad ∉ Json.tokensOf (format.toJson a)

/-- What is checked of a compact text is the value that it was written for. -/
theorem checkStored_compact {v : Json} (hplain : Json.Plain room v)
    (hroom : room ≤ Json.storedDialect.maxDepth)
    (hscalar : Text.isScalar (Json.compact .raw v) = true) (hfits : .bad ∉ Json.tokensOf v) :
    format.checkStored (Json.compact .raw v) = format.check v := by
  rw [checkStored, hscalar, hplain.read_compact hroom hfits]
  rfl

/-- A compact text with an integer that is too long is not read at all. -/
theorem checkStored_compact_of_bad {v : Json} (hplain : Json.Plain room v)
    (hscalar : Text.isScalar (Json.compact .raw v) = true) (hbad : .bad ∈ Json.tokensOf v) :
    format.checkStored (Json.compact .raw v) = Checked.fail .invalidJson := by
  obtain ⟨e, he⟩ : ∃ e, Json.read Json.storedDialect (Json.compact .raw v) = .error e :=
    hplain.read_compact_of_bad hbad
  rw [checkStored, hscalar, he]
  rfl

end RecordFormat

namespace Store

variable {α β : Type} {format : RecordFormat α} {other : RecordFormat β} {room : Nat}
  {bytes : List UInt8}

/-- A record has bytes if and only if its text has. -/
theorem encodeRecord_eq_ok {a : α} :
    encodeRecord format a = .ok bytes ↔ Utf8.encode (format.toStored a) = .ok bytes := by
  rw [encodeRecord]
  cases Utf8.encode (format.toStored a) <;> simp

/-- A record that has bytes is written in scalar values. -/
theorem isScalar_of_encodeRecord {a : α} (h : encodeRecord format a = .ok bytes) :
    Text.isScalar (format.toStored a) = true :=
  (Utf8.encode_eq_ok.1 (encodeRecord_eq_ok.1 h)).1

/-- A record of scalar values has bytes. -/
theorem exists_encodeRecord {a : α} (h : Text.isScalar (format.toStored a) = true) :
    ∃ bytes, encodeRecord format a = .ok bytes :=
  ⟨_, encodeRecord_eq_ok.2 (Utf8.encode_eq_ok.2 ⟨h, rfl⟩)⟩

/-- The bytes of a record are read as its text, whatever the format they are read in. -/
theorem decodeCell_encodeRecord {b : β} (h : encodeRecord other b = .ok bytes) :
    decodeCell format (.blob bytes) = decodeText format (other.toStored b) := by
  rw [decodeCell, Utf8.decode_encode (encodeRecord_eq_ok.1 h)]

/-- What the bytes of a record are read as: the record of its value, if the integers in it fit. -/
theorem decodeCell_eq_ok {b : β} (hother : other.Faithful room)
    (hroom : room ≤ Json.storedDialect.maxDepth) (h : encodeRecord other b = .ok bytes) {a : α} :
    decodeCell format (.blob bytes) = .ok a ↔
      .bad ∉ Json.tokensOf (other.toJson b) ∧ format.check (other.toJson b) = .ok a := by
  have hscalar := isScalar_of_encodeRecord h
  have hplain := hother.plain b hscalar
  rw [decodeCell_encodeRecord h, decodeText, RecordFormat.ofStored, RecordFormat.toStored]
  by_cases hbad : .bad ∈ Json.tokensOf (other.toJson b)
  · rw [RecordFormat.checkStored_compact_of_bad hplain hscalar hbad]
    simp [Checked.fail, Except.mapError, hbad]
  · rw [RecordFormat.checkStored_compact hplain hroom hscalar hbad]
    cases format.check (other.toJson b) <;> simp [Except.mapError, hbad]

/-- The bytes of a record that fits are read as the record. -/
theorem decodeCell_of_fits {a : α} (hformat : format.Faithful room)
    (hroom : room ≤ Json.storedDialect.maxDepth) (h : encodeRecord format a = .ok bytes)
    (hfits : .bad ∉ Json.tokensOf (format.toJson a)) : decodeCell format (.blob bytes) = .ok a :=
  (decodeCell_eq_ok hformat hroom h).2 ⟨hfits, hformat.check a⟩

/-- A record that can be stored is read back from its bytes. -/
theorem exists_decode_of_canStore {a : α} {s : Store α} (hformat : s.format.Faithful room)
    (hroom : room ≤ Json.storedDialect.maxDepth) (h : s.format.CanStore a) (key : Text) :
    ∃ bytes, encodeRecord s.format a = .ok bytes ∧ s.decode key (.blob bytes) = .ok a := by
  obtain ⟨bytes, hbytes⟩ := exists_encodeRecord h.1
  refine ⟨bytes, hbytes, ?_⟩
  rw [decode, decodeCell_of_fits hformat hroom hbytes h.2]
  rfl

/-- The bytes of a record are read as no other record. -/
theorem eq_of_decodeCell {a b : α} (hformat : format.Faithful room)
    (hroom : room ≤ Json.storedDialect.maxDepth) (h : encodeRecord format a = .ok bytes)
    (hb : decodeCell format (.blob bytes) = .ok b) : b = a := by
  have hcheck := ((decodeCell_eq_ok hformat hroom h).1 hb).2
  rw [hformat.check a] at hcheck
  exact (Except.ok.inj hcheck).symm

/-- A cell whose text could be read is not reported as unreadable. -/
theorem decodeText_ne_unreadable (format : RecordFormat α) (t : Text) (u : UnreadableText) :
    decodeText format t ≠ .error (.unreadable u) := by
  rw [decodeText]
  cases format.ofStored t <;> simp [Except.mapError]

/-- A cell is unreadable exactly if it is a text that is not UTF-8. -/
theorem decodeCell_eq_unreadable {cell : Cell} {u : UnreadableText} :
    decodeCell format cell = .error (.unreadable u) ↔
      ∃ bytes e, cell = .text bytes ∧ Utf8.decode bytes = .error e ∧
        u = { column := Cell.column, bytes } := by
  cases cell with
  | text bytes =>
    rw [decodeCell]
    cases hdecode : Utf8.decode bytes with
    | ok t => simp [decodeText_ne_unreadable, hdecode]
    | error e => simp [hdecode, eq_comm]
  | blob bytes =>
    rw [decodeCell]
    cases Utf8.decode bytes with
    | ok t => simp [decodeText_ne_unreadable]
    | error e => simp
  | int i => simp [decodeCell]
  | float x => simp [decodeCell]

/-- Bytes that are read as no record are a corrupt record of the table. -/
theorem decode_eq_corruptRecord {s : Store α} (h : ∀ a, decodeCell s.format (.blob bytes) ≠ .ok a)
    (key : Text) :
    ∃ reason, s.decode key (.blob bytes) = .error (.corruptRecord s.tableName key reason) := by
  rw [decode]
  cases hcell : decodeCell s.format (.blob bytes) with
  | ok a => exact absurd hcell (h a)
  | error fault =>
    cases fault with
    | unreadable u =>
      obtain ⟨_, _, htext, -⟩ := decodeCell_eq_unreadable.1 hcell
      cases htext
    | refused reason => exact ⟨reason, rfl⟩

end Store

/-! ## The formats of the records -/

open Checked

theorem Json.compactItems_eq_map (style : Json.StringStyle) (items : List Json) :
    Json.compactItems style items = items.map (Json.compact style) := by
  induction items with
  | nil => rfl
  | cons v items ih => rw [Json.compactItems, ih, List.map_cons]

/-- A list is checked item by item. -/
theorem Checked.items_map {α β : Type} {check : Json → Checked α} {toJson : β → Json} {f : β → α}
    {l : List β} (h : ∀ b ∈ l, check (toJson b) = .ok (f b)) (i : Nat) :
    Checked.items check i (l.map toJson) = .ok (l.map f) := by
  induction l generalizing i with
  | nil => rfl
  | cons b l ih =>
    have hrest := ih (fun b hb => h b (List.mem_cons_of_mem _ hb)) (i + 1)
    simp [Checked.items, h b List.mem_cons_self, hrest, at_, zip, Except.map]

namespace SourceLocation

variable (l : SourceLocation)

/-- The file consists of scalar values, and the line has no more digits than a reader takes. -/
def isStorable : Bool := Text.isScalar l.file && Json.FitsReader l.line

/-- The text of a location consists of scalar values if and only if its file name does. -/
@[simp] theorem isScalar_compact :
    Text.isScalar (Json.compact .raw (format.toJson l)) = Text.isScalar l.file := by
  simp [format, Json.compact, Json.compactFields, Json.compactField, Text.isScalar_append]

/-- A location is too long for a reader if and only if its line is. -/
@[simp] theorem bad_mem : .bad ∈ Json.tokensOf (format.toJson l) ↔ ¬ Json.FitsReader l.line := by
  simp [format]

/-- A location passes its check as it is. -/
@[simp] theorem check_toJson : format.check (format.toJson l) = .ok l := by
  simp [format, object, required, Json.lookup?, at_, text, int, zip, Except.map]

/-- A location is plain JSON. -/
theorem plain {l : SourceLocation} (h : Text.isScalar l.file = true) (room : Nat) :
    Json.Plain (room + 1) (format.toJson l) :=
  .obj (by simp) (by simp) (by simp [Json.Plain.str room h, Json.Plain.int room l.line])

end SourceLocation

namespace Marking

variable (m : Marking)

/-- The groups consist of scalar values. -/
def isStorable : Bool := m.requiresAudit.all Text.isScalar && m.audited.all Text.isScalar

theorem isScalar_textOrNull (t : Option Text) :
    Text.isScalar (Json.compact .raw (textOrNullJson t)) = t.all Text.isScalar := by
  cases t <;> simp [textOrNullJson, Json.compact]

theorem isScalar_boolText (b : Bool) : Text.isScalar (Json.boolText b) = true := by
  cases b <;> simp [Json.boolText]

/-- The text of a marking consists of scalar values if and only if its groups do. -/
@[simp] theorem isScalar_compact :
    Text.isScalar (Json.compact .raw (format.toJson m)) = m.isStorable := by
  simp [format, Json.compact, Json.compactFields, Json.compactField, Text.isScalar_append,
    isStorable, isScalar_textOrNull, isScalar_boolText]

theorem bad_mem_textOrNull (t : Option Text) : .bad ∉ Json.tokensOf (textOrNullJson t) := by
  cases t <;> simp [textOrNullJson]

/-- No marking is too long for a reader. -/
@[simp] theorem bad_mem : .bad ∉ Json.tokensOf (format.toJson m) := by
  simp [format, bad_mem_textOrNull]

/-- A text or null passes its check as it is. -/
theorem textOrNull_textOrNullJson (t : Option Text) : textOrNull (textOrNullJson t) = .ok t := by
  cases t <;> rfl

/-- A marking passes its check as it is. -/
@[simp] theorem check_toJson : format.check (format.toJson m) = .ok m := by
  simp [format, object, Checked.optional, Json.lookup?, at_, textOrNull_textOrNullJson,
    Checked.bool, zip, Except.map]

theorem plain_textOrNull {t : Option Text} (h : t.all Text.isScalar = true) (room : Nat) :
    Json.Plain room (textOrNullJson t) := by
  cases t with
  | none => exact .null room
  | some t => exact .str room h

/-- A marking is plain JSON. -/
theorem plain {m : Marking} (h : m.isStorable = true) (room : Nat) :
    Json.Plain (room + 1) (format.toJson m) := by
  obtain ⟨hrequired, haudited⟩ := Bool.and_eq_true_iff.1 h
  exact .obj (by simp) (by simp)
    (by simp [plain_textOrNull hrequired room, plain_textOrNull haudited room,
      Json.Plain.bool room m.isEntryPoint])

end Marking

namespace MarkedItem

variable (m : MarkedItem)

/-- The texts consist of scalar values, and the line has no more digits than a reader takes. -/
def isStorable : Bool := m.marking.isStorable && m.location.isStorable

/-- The text of a marked item depends on its groups and its file name. -/
theorem isScalar_compact : Text.isScalar (Json.compact .raw (format.toJson m)) =
    (m.marking.isStorable && Text.isScalar m.location.file) := by
  simp [format, Json.compact, Json.compactFields, Json.compactField, Text.isScalar_append]

/-- A marked item is plain JSON that passes its check as it is. -/
theorem faithful (room : Nat) : format.Faithful (room + 2) where
  plain m h := by
    obtain ⟨hmarking, hlocation⟩ := Bool.and_eq_true_iff.1 (m.isScalar_compact ▸ h)
    exact .obj (by simp) (by simp)
      (by simp [Marking.plain hmarking room, SourceLocation.plain hlocation room])
  check m := by simp [format, object, required, Json.lookup?, at_, zip, Except.map]

/-- Which marked items can be stored and read back. -/
theorem canStore_iff : format.CanStore m ↔ m.isStorable = true := by
  have hbad : .bad ∈ Json.tokensOf (format.toJson m) ↔ ¬ Json.FitsReader m.location.line := by
    simp [format]
  rw [RecordFormat.CanStore, RecordFormat.toStored, isScalar_compact, hbad]
  simp [isStorable, SourceLocation.isStorable, and_assoc]

end MarkedItem

namespace CallEdge

variable (e : CallEdge)

/-- The texts consist of scalar values, and the line has no more digits than a reader takes. -/
def isStorable : Bool :=
  Text.isScalar e.callee && e.typeParams.all Text.isScalar && e.location.isStorable

/-- The text of a call depends on its callee, its type arguments and its file name. -/
theorem isScalar_compact : Text.isScalar (Json.compact .raw (format.toJson e)) =
    (Text.isScalar e.callee && e.typeParams.all Text.isScalar &&
      Text.isScalar e.location.file) := by
  simp [format, Json.compact, Json.compactFields, Json.compactField, Text.isScalar_append,
    Marking.isScalar_boolText, Json.compactItems_eq_map, Function.comp_def, Bool.and_assoc]

/-- Type arguments pass their check as they are. -/
theorem check_typeParams : Checked.items text 0 (e.typeParams.map .str) = .ok e.typeParams := by
  have h : ∀ t ∈ e.typeParams, text (.str t) = .ok (id t) := fun _ _ => rfl
  simpa using items_map h 0

/-- A call is plain JSON that passes its check as it is. -/
theorem faithful (room : Nat) : format.Faithful (room + 2) where
  plain e h := by
    obtain ⟨hnames, hlocation⟩ := Bool.and_eq_true_iff.1 (e.isScalar_compact ▸ h)
    obtain ⟨hcallee, hparams⟩ := Bool.and_eq_true_iff.1 hnames
    have hlist : Json.Plain (room + 1) (.arr (e.typeParams.map .str)) := by
      refine .arr fun v hv => ?_
      obtain ⟨t, ht, rfl⟩ := List.mem_map.1 hv
      exact .str room (List.all_eq_true.1 hparams t ht)
    exact .obj (by simp) (by simp)
      (by simp [Json.Plain.str _ hcallee, Json.Plain.bool _ e.isLangItem, hlist,
        SourceLocation.plain hlocation room])
  check e := by
    simp [format, object, required, Checked.optional, Checked.list, Json.lookup?, at_, text,
      Checked.bool, zip, Except.map, check_typeParams]

/-- Which calls can be stored and read back. -/
theorem canStore_iff : format.CanStore e ↔ e.isStorable = true := by
  have hbad : .bad ∈ Json.tokensOf (format.toJson e) ↔ ¬ Json.FitsReader e.location.line := by
    simp [format]
  rw [RecordFormat.CanStore, RecordFormat.toStored, isScalar_compact, hbad]
  simp [isStorable, SourceLocation.isStorable, and_assoc]

end CallEdge

namespace RecordFormat

variable {α : Type} {format : RecordFormat α} {room : Nat}

/-- The text of a list consists of scalar values if and only if those of its records do. -/
theorem isScalar_toStored_list (as : List α) :
    Text.isScalar (format.list.toStored as) = as.all fun a =>
      Text.isScalar (format.toStored a) := by
  simp [toStored, list, Json.compact, Json.compactItems_eq_map, Text.isScalar_append,
    Function.comp_def]

/-- A list of records is checked as it is if its records are. -/
theorem Faithful.list (h : format.Faithful room) : format.list.Faithful (room + 1) where
  plain as hscalar := by
    rw [isScalar_toStored_list, List.all_eq_true] at hscalar
    refine .arr fun v hv => ?_
    obtain ⟨a, ha, rfl⟩ := List.mem_map.1 hv
    exact h.plain a (hscalar a ha)
  check as := by
    have hitems := items_map (fun a (_ : a ∈ as) => h.check a) 0
    rwa [List.map_id'] at hitems

/-- A list can be stored and read back if and only if all its records can. -/
theorem canStore_list {as : List α} : format.list.CanStore as ↔ ∀ a ∈ as, format.CanStore a := by
  rw [CanStore, isScalar_toStored_list, List.all_eq_true]
  simp only [list, Json.bad_mem_arr, CanStore]
  simp [forall_and]

end RecordFormat

namespace Store

/-- **A store reads back what it has written**, and takes nothing that another kind of store has
written. The bytes of a marked item, or of a list of call edges, are read as that record if its
texts consist of scalar values and its lines fit, and those of the other kind are reported as
corrupt. -/
theorem decode_written (markings : Store MarkedItem) (calls : Store (List CallEdge))
    (hmarkings : markings.format = MarkedItem.format) (hcalls : calls.format = CallEdge.format.list)
    (key : Text) :
    (∀ m : MarkedItem, m.isStorable = true →
      ∃ bytes, encodeRecord markings.format m = .ok bytes ∧
        markings.decode key (.blob bytes) = .ok m) ∧
    (∀ edges : List CallEdge, edges.all CallEdge.isStorable = true →
      ∃ bytes, encodeRecord calls.format edges = .ok bytes ∧
        calls.decode key (.blob bytes) = .ok edges) ∧
    (∀ (m : MarkedItem) (bytes : List UInt8), encodeRecord markings.format m = .ok bytes →
      ∃ reason, calls.decode key (.blob bytes) =
        .error (.corruptRecord calls.tableName key reason)) ∧
    (∀ (edges : List CallEdge) (bytes : List UInt8), encodeRecord calls.format edges = .ok bytes →
      ∃ reason, markings.decode key (.blob bytes) =
        .error (.corruptRecord markings.tableName key reason)) := by
  have hitems : markings.format.Faithful 2 := hmarkings ▸ MarkedItem.faithful 0
  have hlists : calls.format.Faithful 3 := hcalls ▸ (CallEdge.faithful 0).list
  refine ⟨fun m hm => ?_, fun edges hedges => ?_, fun m bytes h => ?_, fun edges bytes h => ?_⟩
  · exact exists_decode_of_canStore hitems (by decide) (hmarkings ▸ m.canStore_iff.2 hm) key
  · refine exists_decode_of_canStore hlists (by decide) (hcalls ▸ ?_) key
    exact RecordFormat.canStore_list.2 fun e he => e.canStore_iff.2 (List.all_eq_true.1 hedges e he)
  · refine decode_eq_corruptRecord (fun edges hok => ?_) key
    have hcheck := ((decodeCell_eq_ok hitems (by decide) h).1 hok).2
    rw [hcalls, hmarkings] at hcheck
    -- an object is not a list
    cases hcheck
  · refine decode_eq_corruptRecord (fun m hok => ?_) key
    have hcheck := ((decodeCell_eq_ok hlists (by decide) h).1 hok).2
    rw [hcalls, hmarkings] at hcheck
    -- a list is not an object
    cases hcheck

/-- Characters of all kinds of escapes are read back, and calls are not read from the bytes of a
marking. -/
theorem decode_written_escapes :
    ∃ (m : MarkedItem) (bytes : List UInt8),
      m.marking = { requiresAudit := some "a\"b\\c", audited := some "\u0001\u007f\u2028😀" } ∧
      m.location = { file := "src\n/ü.rs", line := -40 } ∧
      encodeRecord MarkedItem.format m = .ok bytes ∧
      decode { path := { start := .relative, parts := ["marking"] }, format := MarkedItem.format }
        "k" (.blob bytes) =
        .ok m ∧
      ∃ reason, decode { path := { start := .relative, parts := ["calledge"] },
                         format := CallEdge.format.list } "k"
        (.blob bytes) = .error (.corruptRecord "calledge" "k" reason) := by
  obtain ⟨hitem, -, hcross, -⟩ := decode_written
    { path := { start := .relative, parts := ["marking"] }, format := MarkedItem.format }
    { path := { start := .relative, parts := ["calledge"] }, format := CallEdge.format.list }
      rfl rfl "k"
  have hline : Json.FitsReader (-40) :=
    Json.fitsReader_of_natAbs_lt (k := 2) (by decide) (by decide) (by decide)
  obtain ⟨bytes, hbytes, hdecode⟩ := hitem
    { marking := { requiresAudit := some "a\"b\\c", audited := some "\u0001\u007f\u2028😀" }
      location := { file := "src\n/ü.rs", line := -40 } }
    (by simp [MarkedItem.isStorable, Marking.isStorable, SourceLocation.isStorable, hline])
  exact ⟨_, bytes, rfl, rfl, hbytes, hdecode, hcross _ bytes hbytes⟩

end Store

end CallAudit
