import CallAudit.Proofs.CanonicalForms

/-!
# Reading pretty texts

The pretty text of a plain value is read as the value, as its compact text is: what the layout adds
is white space (`Json.Plain.lexes_pretty`). A payload that can be written has such a value as its
canonical form (`Value.WrittenAs`), so its pretty text is read as its canonical form
(`Value.pretty_text_reads_back`). Payloads that hold floating-point numbers, moments, texts with
unpaired surrogates or integers that a reader refuses, or that are nested too deeply, are left out
(`Value.Legible`).
-/

namespace CallAudit

namespace Json

variable {d : Dialect} {v : Json} {room : Nat} {s w rest : Text} {ts : List Token}

/-! ## White space -/

/-- A text that separates tokens and has none of its own. -/
def IsGap (w : Text) : Prop := w ≠ [] ∧ ∀ c ∈ w, isSpace c = true

/-- White space has no tokens. -/
theorem tokens_gap (h : ∀ c ∈ w, isSpace c = true) (rest : Text) :
    tokens d (w ++ rest) = tokens d rest := by
  induction w with
  | nil => rfl
  | cons c w ih =>
    obtain ⟨hc, hw⟩ := List.forall_mem_cons.1 h
    rw [List.cons_append, tokens, if_pos hc]
    exact ih hw

/-- White space ends a number. -/
theorem endsNumber_gap (h : IsGap w) (rest : Text) : EndsNumber (w ++ rest) := by
  intro c hc
  rw [List.head?_append_of_ne_nil w h.1] at hc
  have hspace := h.2 c (List.mem_of_mem_head? hc)
  simp only [isSpace, Bool.or_eq_true, beq_iff_eq] at hspace
  simp only [CodePoint.isDigit, Bool.and_eq_false_iff, decide_eq_false_iff_not]
  omega

theorem isGap_lineBreak : IsGap "\n" := by
  have hspace : isSpace (CodePoint.ofChar '\n') = true := by decide
  simp [IsGap, Text.ofString, hspace]

theorem isGap_blank : IsGap " " := by
  have hspace : isSpace (CodePoint.ofChar ' ') = true := by decide
  simp [IsGap, Text.ofString, hspace]

theorem isGap_newline (depth : Nat) : IsGap (newline depth) := by
  have hblank : isSpace (CodePoint.ofChar ' ') = true := by decide
  refine ⟨List.append_ne_nil_of_left_ne_nil isGap_lineBreak.1 _, fun c hc => ?_⟩
  rcases List.mem_append.1 hc with hc | hc
  · exact isGap_lineBreak.2 c hc
  · rw [List.eq_of_mem_replicate hc, hblank]

/-- White space may be put before a text. -/
theorem Lexes.after_gap (hs : Lexes d s ts) (hw : IsGap w) : Lexes d (w ++ s) ts := by
  intro rest hrest
  rw [List.append_assoc, tokens_gap hw.2]
  exact hs rest hrest

/-- White space may be put after a text. -/
theorem Lexes.before_gap (hs : Lexes d s ts) (hw : IsGap w) : Lexes d (s ++ w) ts := by
  intro rest _
  have hrest := hs (w ++ rest) (endsNumber_gap hw rest)
  rwa [tokens_gap hw.2, ← List.append_assoc] at hrest

/-! ## The pretty layout -/

theorem prettyItems_eq_map (depth : Nat) (items : List Json) :
    prettyItems depth items = items.map (prettyAt depth) := by
  induction items with
  | nil => rfl
  | cons v items ih => rw [prettyItems, ih, List.map_cons]

theorem prettyFields_eq_map (depth : Nat) (fields : List (Text × Json)) :
    prettyFields depth fields = fields.map (prettyField depth) := by
  induction fields with
  | nil => rfl
  | cons field fields ih => rw [prettyFields, ih, List.map_cons]

/-- Items on lines of their own have the tokens of the items, with commas between and brackets
around them. -/
theorem lexes_bracketed {opening closing : Text} {first last : Token}
    (hopening : (opening, first) ∈ literals) (hclosing : (closing, last) ∈ literals) (depth : Nat)
    {texts : List Text} {parts : List (List Token)} (h : List.Forall₂ (Lexes d) texts parts) :
    Lexes d (bracketed opening closing depth texts)
      (first :: (List.intercalate [.comma] parts ++ [last])) := by
  have hcomma : (Text.ofString ",", Token.comma) ∈ literals := by simp [literals]
  cases h with
  | nil => exact (lexes_literal hclosing).after_literal hopening
  | cons hfirst hrest =>
    have hsep (rest : Text) :
        tokens d ("," ++ newline (depth + 1) ++ rest) = .comma :: tokens d rest := by
      rw [List.append_assoc, tokens_literal hcomma, tokens_gap (isGap_newline _).2]
    have hends (rest : Text) : EndsNumber ("," ++ newline (depth + 1) ++ rest) := by
      rw [List.append_assoc]
      exact endsNumber_literal hcomma _
    have hjoined := lexes_join hsep hends (.cons hfirst hrest)
    have hlines := (hjoined.after_gap (isGap_newline (depth + 1))).before_gap (isGap_newline depth)
    have hwhole := (hlines.before_literal hclosing).after_literal hopening
    rw [bracketed, if_neg (by simp)]
    simpa only [List.append_assoc] using hwhole

/-- A field has the tokens of its name, a colon and its value. -/
theorem lexes_prettyField (depth : Nat) {field : Text × Json}
    (hscalar : Text.isScalar field.1 = true)
    (h : Lexes d (prettyAt depth field.2) (tokensOf field.2)) :
    Lexes d (prettyField depth field) (tokensOfField field) := by
  have hcolon : (Text.ofString ":", Token.colon) ∈ literals := by simp [literals]
  have hsplit : Text.ofString ": " = Text.ofString ":" ++ Text.ofString " " := by decide
  obtain ⟨name, v⟩ := field
  rw [prettyField, tokensOfField, hsplit, List.append_assoc, List.append_assoc]
  exact ((h.after_gap isGap_blank).after_literal hcolon).after_stringText hscalar

/-- The pretty text of a plain value has the tokens of the value. -/
theorem Plain.lexes_pretty (h : Plain room v) (depth : Nat) :
    Lexes d (prettyAt depth v) (tokensOf v) := by
  induction h generalizing depth with
  | null => exact lexes_literal (by simp [literals, prettyAt])
  | bool _ b =>
    cases b with
    | false => exact lexes_literal (by simp [literals, prettyAt, boolText])
    | true => exact lexes_literal (by simp [literals, prettyAt, boolText])
  | int _ i => exact lexes_ofInt i
  | str _ scalar => exact lexes_stringText scalar
  | arr _ ih =>
    refine lexes_bracketed (by simp [literals]) (by simp [literals]) depth ?_
    rw [prettyItems_eq_map, itemTokens_eq_map, List.forall₂_map_left_iff,
      List.forall₂_map_right_iff, List.forall₂_same]
    exact fun v hv => ih v hv (depth + 1)
  | obj _ scalar _ ih =>
    refine lexes_bracketed (by simp [literals]) (by simp [literals]) depth ?_
    rw [prettyFields_eq_map, fieldTokens_eq_map, List.forall₂_map_left_iff,
      List.forall₂_map_right_iff, List.forall₂_same]
    exact fun field hfield => lexes_prettyField (depth + 1) (scalar field hfield)
      (ih field hfield (depth + 1))

/-- A plain value whose integers fit. -/
structure Fitting (room : Nat) (v : Json) : Prop where
  plain : Plain room v
  fits : .bad ∉ tokensOf v

/-- An array of plain values whose integers fit is one. -/
theorem Fitting.arr {items : List Json} (h : ∀ v ∈ items, Fitting room v) :
    Fitting (room + 1) (.arr items) where
  plain := .arr fun v hv => (h v hv).plain
  fits hbad := by
    obtain ⟨v, hv, hbad⟩ := (bad_mem_arr items).1 hbad
    exact (h v hv).fits hbad

/-- So is an object, if its names are different and consist of scalar values. -/
theorem Fitting.obj {fields : List (Text × Json)} (distinct : (fields.map (·.1)).Nodup)
    (scalar : ∀ field ∈ fields, Text.isScalar field.1 = true)
    (h : ∀ field ∈ fields, Fitting room field.2) : Fitting (room + 1) (.obj fields) where
  plain := .obj distinct scalar fun field hfield => (h field hfield).plain
  fits hbad := by
    obtain ⟨field, hfield, hbad⟩ := (bad_mem_obj fields).1 hbad
    exact (h field hfield).fits hbad

/-- A text with the tokens of a value is read as the value. -/
theorem Fitting.read_of_lexes (h : Fitting room v) (hroom : room ≤ d.maxDepth)
    (hs : Lexes d s (tokensOf v)) : read d s = .ok v := by
  have hdelivers := h.plain.delivers (d := d) h.fits .value [] [] trivial (by simpa using hroom)
  have htokens := hs [] nofun (.within .value [])
  have hnil : tokens d [] = [] := by rw [tokens]
  rw [hnil, List.append_nil, List.append_nil] at htokens
  rw [List.append_nil] at hdelivers
  rw [read, htokens, hdelivers]
  rfl

end Json

/-! ## Payloads -/

/-- An integer that a reader takes can be written out. -/
theorem Text.writeInt_of_fitsReader {i : Int} (h : Json.FitsReader i) :
    writeInt i = .ok (ofInt i) := by
  have hshort : isLong i = false := decide_eq_false (Nat.not_lt.2 h)
  rw [writeInt, hshort]
  rfl

namespace Value

variable {v : Value} {j : Json} {room : Nat}

open Json (Fitting FitsReader)

theorem toJsonItems_eq_mapM (items : List Value) : toJsonItems items = items.mapM toJson := by
  induction items with
  | nil => rfl
  | cons v items ih => rw [toJsonItems, ih, List.mapM_cons]

theorem toJsonFields_eq_mapM (entries : List (Value × Value)) :
    toJsonFields entries = entries.mapM toJsonField := by
  induction entries with
  | nil => rfl
  | cons entry entries ih => rw [toJsonFields, ih, List.mapM_cons]

/-- JSON whose integers fit is written as it is. -/
theorem toJson_ofJson (h : Fitting room j) : toJson (.ofJson j) = .ok j := by
  obtain ⟨plain, fits⟩ := h
  induction plain with
  | null => rfl
  | bool => rfl
  | int _ i =>
    have hfits : FitsReader i := by simpa using fits
    rw [ofJson, toJson, Text.writeInt_of_fitsReader hfits]
    rfl
  | str => rfl
  | @arr room items _ ih =>
    have hitems : (items.map ofJson).mapM toJson = .ok items := by
      rw [List.mapM_map, mapM_eq_map (g := id), List.map_id]
      exact fun v hv => ih v hv fun hbad => fits ((Json.bad_mem_arr items).2 ⟨v, hv, hbad⟩)
    rw [ofJson, ofJsonItems_eq_map, toJson, toJsonItems_eq_mapM, hitems]
    rfl
  | @obj room fields _ _ _ ih =>
    have hfields : (fields.map fun field => (Value.text field.1, ofJson field.2)).mapM toJsonField =
        .ok fields := by
      rw [List.mapM_map, mapM_eq_map (g := id), List.map_id]
      intro field hfield
      have hvalue := ih field hfield fun hbad =>
        fits ((Json.bad_mem_obj fields).2 ⟨field, hfield, hbad⟩)
      rw [Function.comp_apply, toJsonField, hvalue]
      rfl
    rw [ofJson, ofJsonFields_eq_map, toJson, toJsonFields_eq_mapM, hfields]
    rfl

/-- The canonical form of a payload is JSON that a reader gives back. -/
structure WrittenAs (room : Nat) (v : Value) (j : Json) : Prop where
  form : canonical room v = .ok (.ofJson j)
  fitting : Fitting room j

namespace WrittenAs

theorem null (room : Nat) : WrittenAs room .null .null :=
  ⟨Leaf.null.canonical_eq room, .null room, Json.bad_mem_null⟩

theorem bool (room : Nat) (b : Bool) : WrittenAs room (.bool b) (.bool b) :=
  ⟨(Leaf.bool b).canonical_eq room, .bool room b, Json.bad_mem_bool b⟩

theorem int (room : Nat) {i : Int} (fits : FitsReader i) : WrittenAs room (.int i) (.int i) :=
  ⟨(Leaf.int i).canonical_eq room, .int room i, by simpa using fits⟩

theorem text (room : Nat) {t : Text} (scalar : Text.isScalar t = true) :
    WrittenAs room (.text t) (.str t) :=
  ⟨(Leaf.text t).canonical_eq room, .str room scalar, Json.bad_mem_str t⟩

/-- A list is written as the array of its items. -/
theorem list {items : List Value} {forms : List Json}
    (h : List.Forall₂ (WrittenAs room) items forms) :
    WrittenAs (room + 1) (.list items) (.arr forms) where
  form := by
    have hforms : items.mapM (canonical room) = .ok (forms.map ofJson) :=
      mapM_of_forall₂ (List.forall₂_map_right_iff.2 (h.imp fun _ _ hform => hform.form))
    rw [canonical_list, hforms, ofJson, ofJsonItems_eq_map]
    rfl
  fitting := .arr (forall_mem_of_forall₂ h fun _ _ hform => hform.fitting)

/-- A tuple is written like a list. -/
theorem tuple {items : List Value} {forms : List Json}
    (h : List.Forall₂ (WrittenAs room) items forms) :
    WrittenAs (room + 1) (.tuple items) (.arr forms) :=
  ⟨(canonical_tuple _ items).trans (list h).form, (list h).fitting⟩

/-- Keys may share a name, but every field that is left is that of one of the entries. -/
theorem map {entries : List (Value × Value)} {fields : List (Text × Json)}
    (h : List.Forall₂ (fun entry field => name (keyRoom room) entry.1 = .ok field.1 ∧
      Text.isScalar field.1 = true ∧ WrittenAs room entry.2 field.2) entries fields) :
    WrittenAs (room + 1) (.map entries) (.obj (orderedFields fields)) where
  form := by
    have hfields : entries.mapM (canonicalEntry room) =
        .ok (fields.map fun field => (field.1, ofJson field.2)) := by
      refine mapM_of_forall₂ (List.forall₂_map_right_iff.2 (h.imp ?_))
      exact fun entry field hfield => canonicalEntry_eq_ok.2 ⟨hfield.1, hfield.2.2.form⟩
    rw [canonical_map, hfields, ofJson, ofJsonFields_eq_map]
    refine congrArg Except.ok ?_
    show ofTable (orderedFields _) = _
    rw [Json.orderedFields_map, ofTable, List.map_map]
    rfl
  fitting := by
    have hfields := forall_mem_of_forall₂ (p := fun field =>
      Text.isScalar field.1 = true ∧ Fitting room field.2) h
        fun _ _ hfield => ⟨hfield.2.1, hfield.2.2.fitting⟩
    exact .obj (Json.nodup_orderedFields fields)
      (fun field hfield => (hfields field (Json.mem_of_mem_orderedFields hfield)).1)
      fun field hfield => (hfields field (Json.mem_of_mem_orderedFields hfield)).2

/-- An object is written with its fields in order. -/
theorem obj {given : List (Text × Json)} (fields : List (Text × Json))
    (h : List.Forall₂ (fun field field' => field.1 = field'.1 ∧ Text.isScalar field'.1 = true ∧
      WrittenAs room (.ofJson field.2) field'.2) given fields) :
    WrittenAs (room + 1) (.ofJson (.obj given)) (.obj (orderedFields fields)) := by
  rw [ofJson, ofJsonFields_eq_map]
  refine map (List.forall₂_map_left_iff.2 (h.imp ?_))
  exact fun field field' hfield => ⟨congrArg _ hfield.1, hfield.2⟩

/-- The pretty text of a payload is that of its form. -/
theorem prettyJson_eq (h : WrittenAs room v j) : prettyJson room v = .ok (Json.pretty j) := by
  rw [prettyJson, h.form]
  show (toJson (.ofJson j) >>= fun j => pure (Json.pretty j)) = _
  rw [toJson_ofJson h.fitting]
  rfl

/-- The text of an object is read as the object, also if white space follows. -/
theorem readObject_pretty {fields : List (Text × Json)} (h : WrittenAs room v (.obj fields))
    (hroom : room ≤ Json.inputDialect.maxDepth) :
    Json.readObject (Json.pretty (.obj fields)) = .ok (some fields) ∧
      Json.readObject (Json.pretty (.obj fields) ++ "\n") = .ok (some fields) := by
  have hlexes : Json.Lexes Json.inputDialect (Json.pretty (.obj fields)) _ :=
    h.fitting.plain.lexes_pretty 0
  have hline := h.fitting.read_of_lexes hroom (hlexes.before_gap Json.isGap_lineBreak)
  have hread := h.fitting.read_of_lexes hroom hlexes
  rw [Json.readObject, Json.readObject, hread, hline]
  exact ⟨rfl, rfl⟩

end WrittenAs

/-- A payload without parts that a reader gives back: null, a truth value, an integer with no more
digits than a reader takes, or a text of scalar values. -/
inductive Atomic : Value → Prop
  | null : Atomic .null
  | bool (b : Bool) : Atomic (.bool b)
  | int {i : Int} (fits : FitsReader i) : Atomic (.int i)
  | text {t : Text} (scalar : Text.isScalar t = true) : Atomic (.text t)

/-- A payload made of atomic values by lists, tuples and mappings with atomic keys, where at most
`room` of them lie in each other. -/
inductive Legible : (room : Nat) → Value → Prop
  | atomic (room : Nat) {v : Value} (atomic : Atomic v) : Legible room v
  | list {room : Nat} {items : List Value} (legible : ∀ v ∈ items, Legible room v) :
    Legible (room + 1) (.list items)
  | tuple {room : Nat} {items : List Value} (legible : ∀ v ∈ items, Legible room v) :
    Legible (room + 1) (.tuple items)
  | map {room : Nat} {entries : List (Value × Value)} (keys : ∀ entry ∈ entries, Atomic entry.1)
    (legible : ∀ entry ∈ entries, Legible room entry.2) : Legible (room + 1) (.map entries)

/-- An atomic key has a name, which consists of scalar values. -/
theorem Atomic.exists_name (h : Atomic v) (room : Nat) :
    ∃ n, name room v = .ok n ∧ Text.isScalar n = true := by
  cases h with
  | null => exact ⟨_, rfl, Text.isScalar_ofString _⟩
  | bool b =>
    cases b with
    | false => exact ⟨_, rfl, Text.isScalar_ofString _⟩
    | true => exact ⟨_, rfl, Text.isScalar_ofString _⟩
  | int fits => exact ⟨_, Text.writeInt_of_fitsReader fits, Text.isScalar_ofInt _⟩
  | text scalar => exact ⟨_, rfl, scalar⟩

theorem Atomic.exists_writtenAs (h : Atomic v) (room : Nat) : ∃ j, WrittenAs room v j := by
  cases h with
  | null => exact ⟨_, .null room⟩
  | bool b => exact ⟨_, .bool room b⟩
  | int fits => exact ⟨_, .int room fits⟩
  | text scalar => exact ⟨_, .text room scalar⟩

/-- A mapping of atomic keys and payloads that are written is written as an object. -/
theorem exists_writtenAs_map {entries : List (Value × Value)}
    (keys : ∀ entry ∈ entries, Atomic entry.1)
    (values : ∀ entry ∈ entries, ∃ j, WrittenAs room entry.2 j) :
    ∃ fields, WrittenAs (room + 1) (.map entries) (.obj fields) := by
  have hentry : ∀ entry ∈ entries, ∃ field : Text × Json,
      name (keyRoom room) entry.1 = .ok field.1 ∧ Text.isScalar field.1 = true ∧
      WrittenAs room entry.2 field.2 := by
    intro entry hentry
    obtain ⟨n, hname, hscalar⟩ := (keys entry hentry).exists_name (keyRoom room)
    obtain ⟨j, hj⟩ := values entry hentry
    exact ⟨(n, j), hname, hscalar, hj⟩
  obtain ⟨fields, hfields⟩ := exists_forall₂ hentry
  exact ⟨_, .map hfields⟩

/-- A legible payload is written as JSON that a reader gives back. -/
theorem Legible.exists_writtenAs (h : Legible room v) : ∃ j, WrittenAs room v j := by
  induction h with
  | atomic room atomic => exact atomic.exists_writtenAs room
  | list _ ih =>
    obtain ⟨forms, hforms⟩ := exists_forall₂ ih
    exact ⟨_, .list hforms⟩
  | tuple _ ih =>
    obtain ⟨forms, hforms⟩ := exists_forall₂ ih
    exact ⟨_, .tuple hforms⟩
  | map keys _ ih =>
    obtain ⟨fields, hfields⟩ := exists_writtenAs_map keys ih
    exact ⟨_, hfields⟩

/-- **Reading undoes pretty writing.** A mapping that is built from null, truth values, integers
with no more digits than a reader takes, texts of scalar values, lists, tuples and mappings with
keys of these kinds, and nested no more deeply than there is room and than a reader takes, has a
pretty text. It is read as the canonical form of the mapping: the same names with the same values in
the same order, at every level. -/
theorem pretty_text_reads_back (entries : List (Value × Value)) (room : Nat)
    (hroom : room ≤ Json.inputDialect.maxDepth) (h : Legible room (.map entries)) :
    ∃ fields text, canonical room (.map entries) = .ok (.ofJson (.obj fields)) ∧
      prettyJson room (.map entries) = .ok text ∧ Json.readObject text = .ok (some fields) := by
  cases h with
  | atomic _ atomic => cases atomic
  | map keys legible =>
    obtain ⟨fields, hfields⟩ :=
      exists_writtenAs_map keys fun entry hentry => (legible entry hentry).exists_writtenAs
    exact ⟨fields, _, hfields.form, hfields.prettyJson_eq, (hfields.readObject_pretty hroom).1⟩

/-- Entries of which two have one name, with empty containers, a tuple, and a text whose characters
are all escaped. -/
def assorted : List (Value × Value) :=
  [(.int 1, .bool true), (.null, .text ['"', '\\', '\n', '😀', 'ü']),
    (.text ['1'], .tuple [.int (-40), .list []]), (.bool true, .map [])]

/-- Of the two entries with one name the last one is read. -/
theorem pretty_text_reads_back_assorted :
    Legible stackRoom (.map assorted) ∧
      ∃ fields text, canonical stackRoom (.map assorted) = .ok (.ofJson (.obj fields)) ∧
        prettyJson stackRoom (.map assorted) = .ok text ∧ Json.readObject text = .ok (some fields) ∧
        Json.lookup? ['1'] fields = some (.arr [.int (-40), .arr []]) := by
  have hone : FitsReader 1 :=
    Json.fitsReader_of_natAbs_lt (k := 1) (by decide) (by decide) (by decide)
  have hforty : FitsReader (-40) :=
    Json.fitsReader_of_natAbs_lt (k := 2) (by decide) (by decide) (by decide)
  have hlegible : Legible (487 + 1 + 1 + 1) (.map assorted) := by
    have htuple : Legible (487 + 1 + 1) (.tuple [.int (-40), .list []]) := by
      refine .tuple (List.forall_mem_cons.2 ⟨.atomic _ (.int hforty), ?_⟩)
      exact List.forall_mem_singleton.2 (.list nofun)
    refine .map ?_ ?_
    · simp only [assorted, List.forall_mem_cons]
      exact ⟨.int hone, .null, .text (by decide), .bool true, nofun⟩
    · simp only [assorted, List.forall_mem_cons]
      exact ⟨.atomic _ (.bool true), .atomic _ (.text (by decide)), htuple, .map nofun nofun, nofun⟩
  obtain ⟨fields, text, hform, htext, hread⟩ :=
    pretty_text_reads_back assorted stackRoom (by decide) hlegible
  refine ⟨hlegible, fields, text, hform, htext, hread, ?_⟩
  have hwritten : WrittenAs (487 + 1 + 1 + 1) (.map assorted) (.obj (orderedFields
      [(['1'], .bool true), ("None", .str ['"', '\\', '\n', '😀', 'ü']),
        (['1'], .arr [.int (-40), .arr []]), ("True", .obj (orderedFields []))])) := by
    refine .map (.cons ⟨by decide +kernel, by decide, .bool _ true⟩
      (.cons ⟨rfl, by decide, .text _ (by decide)⟩
      (.cons ⟨rfl, by decide, .tuple (.cons (.int _ hforty) (.cons (.list .nil) .nil))⟩
        (.cons ⟨rfl, by decide, .map .nil⟩ .nil))))
  -- the text is the one of this form, so its fields are those that are read
  obtain rfl := Except.ok.inj (htext.symm.trans hwritten.prettyJson_eq)
  have hsame := hread.symm.trans (hwritten.readObject_pretty (by decide)).1
  rw [Option.some.inj (Except.ok.inj hsame), Json.lookup?_orderedFields_last]
  rfl

end Value

end CallAudit
