import CallAudit.Proofs.Lexing

/-!
# Reading undoes writing

A compact JSON text is cut into the tokens of its value (`Json.Plain.lexes`), and these make a
reader deliver the value (`Json.Plain.delivers`). So what was written is read back, unless an
integer in it has too many digits for a reader, or containers lie too deep in each other
(`Json.Plain.read_compact`).
-/

namespace CallAudit.Json

/-! ## Tokens of a value -/

/-- The token as which an integer is read. -/
def intToken (i : Int) : Token := if FitsReader i then .int i else .bad

mutual

/-- The tokens of a value. -/
def tokensOf : Json → List Token
  | .null => [.null]
  | .bool b => [.bool b]
  | .int i => [intToken i]
  | .float x => [.float x]
  | .str t => [.str t]
  | .arr items => .openArray :: (List.intercalate [.comma] (itemTokens items) ++ [.closeArray])
  | .obj fields => .openObject :: (List.intercalate [.comma] (fieldTokens fields) ++ [.closeObject])
termination_by structural v => v

/-- The tokens of each item of an array. -/
def itemTokens : List Json → List (List Token)
  | [] => []
  | v :: rest => tokensOf v :: itemTokens rest
termination_by structural items => items

/-- The tokens of each field of an object. -/
def fieldTokens : List (Text × Json) → List (List Token)
  | [] => []
  | field :: rest => tokensOfField field :: fieldTokens rest
termination_by structural fields => fields

/-- The tokens of a field. -/
def tokensOfField : Text × Json → List Token
  | (name, v) => .str name :: .colon :: tokensOf v
termination_by structural field => field

end

/-- A value that a reader gives back as it was written, if its integers fit: there are no
floating-point numbers, the texts are made of scalar values, no name occurs twice in an object, and
at most `room` containers lie in each other. -/
inductive Plain : (room : Nat) → Json → Prop
  | null (room : Nat) : Plain room .null
  | bool (room : Nat) (b : Bool) : Plain room (.bool b)
  | int (room : Nat) (i : Int) : Plain room (.int i)
  | str (room : Nat) {t : Text} (scalar : Text.isScalar t = true) : Plain room (.str t)
  | arr {room : Nat} {items : List Json} (plain : ∀ v ∈ items, Plain room v) :
    Plain (room + 1) (.arr items)
  | obj {room : Nat} {fields : List (Text × Json)} (distinct : (fields.map (·.1)).Nodup)
    (scalar : ∀ field ∈ fields, Text.isScalar field.1 = true)
      (plain : ∀ field ∈ fields, Plain room field.2) :
    Plain (room + 1) (.obj fields)

variable {d : Dialect} {style : StringStyle} {v : Json} {room : Nat} {rest : Text}

/-! ## Lexing compact texts -/

/-- Two sequences of tokens are read alike from every state. -/
def ReadAlike (d : Dialect) (ts ts' : List Token) : Prop :=
  ∀ p, advanceAll d p ts = advanceAll d p ts'

theorem ReadAlike.refl (ts : List Token) : ReadAlike d ts ts := fun _ => rfl

theorem ReadAlike.trans {ts ts' ts'' : List Token} (h : ReadAlike d ts ts')
    (h' : ReadAlike d ts' ts'') :
    ReadAlike d ts ts'' := fun p => (h p).trans (h' p)

/-- Tokens may be put before texts that are read alike. -/
theorem ReadAlike.append {ts ts' : List Token} (h : ReadAlike d ts ts') (before : List Token) :
    ReadAlike d (before ++ ts) (before ++ ts') := by
  induction before with
  | nil => exact h
  | cons token before ih =>
    intro p
    simp only [List.cons_append, advanceAll]
    cases advance d p token with
    | error e => rfl
    | ok p' => exact ih p'

/-- No machine gets past a bad token. -/
theorem advance_bad (p : Progress) : ∃ e, advance d p .bad = .error e := by
  cases p with
  | done v => exact ⟨_, rfl⟩
  | within expected stack =>
    rw [advance]
    split
    · exact ⟨_, rfl⟩
    · exact ⟨_, rfl⟩

/-- Nothing is read after a bad token. -/
theorem readAlike_bad (ts ts' : List Token) : ReadAlike d (.bad :: ts) (.bad :: ts') := by
  intro p
  obtain ⟨e, he⟩ := advance_bad (d := d) p
  rw [advanceAll, advanceAll, he]

/-- A number is read like its token. -/
theorem readAlike_ofInt (i : Int) (hrest : EndsNumber rest) :
    ReadAlike d (tokens d (Text.ofInt i ++ rest)) (intToken i :: tokens d rest) := by
  rw [tokens_ofInt i hrest, intToken]
  split
  · exact .refl _
  · exact readAlike_bad _ _

/-- A text is cut into the given tokens, before whatever cannot continue a number. -/
def Lexes (d : Dialect) (s : Text) (ts : List Token) : Prop :=
  ∀ rest, EndsNumber rest → ReadAlike d (tokens d (s ++ rest)) (ts ++ tokens d rest)

variable {s s' : Text} {token : Token} {ts : List Token}

/-- A literal has its token. -/
theorem lexes_literal (h : (s, token) ∈ literals) : Lexes d s [token] := by
  intro rest _
  rw [tokens_literal h]
  exact .refl _

/-- A literal may be put before a text. -/
theorem Lexes.after_literal (hs : Lexes d s ts) (h : (s', token) ∈ literals) :
    Lexes d (s' ++ s) (token :: ts) := by
  intro rest hrest
  rw [List.append_assoc, tokens_literal h]
  exact (hs rest hrest).append [token]

/-- A literal ends a number. -/
theorem endsNumber_literal (h : (s, token) ∈ literals) (rest : Text) : EndsNumber (s ++ rest) := by
  have hheads : ∀ p ∈ literals, p.1.head?.all fun c =>
      !c.isDigit && c.val != 0x2e && c.val != 0x65 && c.val != 0x45 := by decide
  intro c hc
  have hs := hheads _ h
  rw [List.head?_append_of_ne_nil s (literals_ne_nil _ h)] at hc
  rw [Option.mem_def.1 hc] at hs
  simpa [and_assoc] using hs

/-- A literal may be put after a text. -/
theorem Lexes.before_literal (hs : Lexes d s ts) (h : (s', token) ∈ literals) :
    Lexes d (s ++ s') (ts ++ [token]) := by
  intro rest _
  have hrest := hs (s' ++ rest) (endsNumber_literal h rest)
  rwa [tokens_literal h, ← List.append_assoc, List.append_cons] at hrest

/-- A string has one token, which holds its characters. -/
theorem lexes_stringText {t : Text} (ht : Text.isScalar t = true) :
    Lexes d (stringText style t) [.str t] := by
  intro rest _
  rw [tokens_stringText style ht]
  exact .refl _

/-- A string may be put before a text. -/
theorem Lexes.after_stringText {t : Text} (ht : Text.isScalar t = true) (hs : Lexes d s ts) :
    Lexes d (stringText style t ++ s) (.str t :: ts) := by
  intro rest hrest
  rw [List.append_assoc, tokens_stringText style ht]
  exact (hs rest hrest).append [.str t]

theorem intercalate_cons {α : Type} (sep a : List α) (l : List (List α)) :
    List.intercalate sep (a :: l) = a ++ l.flatMap (sep ++ ·) := by
  induction l generalizing a with
  | nil => simp [List.intercalate]
  | cons b l ih =>
    have h : List.intercalate sep (a :: b :: l) = a ++ (sep ++ List.intercalate sep (b :: l)) := by
      simp [List.intercalate]
    rw [h, ih b, List.flatMap_cons, List.append_assoc]

/-- What is joined by separators that are read as commas is lexed part by part. -/
theorem lexes_join {sep : Text} (hsep : ∀ rest, tokens d (sep ++ rest) = .comma :: tokens d rest)
    (hends : ∀ rest, EndsNumber (sep ++ rest)) {texts : List Text} {parts : List (List Token)}
    (h : List.Forall₂ (Lexes d) texts parts) :
    Lexes d (Text.join sep texts) (List.intercalate [.comma] parts) := by
  have hmore {s : Text} {ts : List Token} {texts : List Text} {parts : List (List Token)}
      (hs : Lexes d s ts) (h : List.Forall₂ (Lexes d) texts parts) :
      Lexes d (s ++ texts.flatMap (sep ++ ·)) (ts ++ parts.flatMap ([.comma] ++ ·)) := by
    induction h generalizing s ts with
    | nil => simpa using hs
    | @cons s' ts' texts parts h₁ _ ih =>
      have h₂ : Lexes d (s ++ (sep ++ s')) (ts ++ ([.comma] ++ ts')) := by
        intro rest hrest
        have h₃ := hs (sep ++ (s' ++ rest)) (hends _)
        rw [hsep] at h₃
        have h₄ := (h₁ rest hrest).append (ts ++ [.comma])
        simp only [List.append_assoc, List.cons_append, List.nil_append] at h₃ h₄ ⊢
        exact h₃.trans h₄
      have h₅ := ih h₂
      simpa only [List.flatMap_cons, List.append_assoc] using h₅
  -- the first part has no separator before it, so the induction is on the others
  cases h with
  | nil =>
    intro rest _
    exact .refl _
  | cons h₁ h =>
    rw [Text.join, intercalate_cons, intercalate_cons]
    exact hmore h₁ h

/-- What is joined by commas is lexed part by part. -/
theorem lexes_joinComma {texts : List Text} {parts : List (List Token)}
    (h : List.Forall₂ (Lexes d) texts parts) :
    Lexes d (Text.join "," texts) (List.intercalate [.comma] parts) := by
  have hcomma : (Text.ofString ",", Token.comma) ∈ literals := by simp [literals]
  exact lexes_join (tokens_literal hcomma) (endsNumber_literal hcomma) h

/-- A number has one token. -/
theorem lexes_ofInt (i : Int) : Lexes d (Text.ofInt i) [intToken i] :=
  fun _ hrest => readAlike_ofInt i hrest

theorem lexes_items {items : List Json} (h : ∀ v ∈ items, Lexes d (compact style v) (tokensOf v)) :
    List.Forall₂ (Lexes d) (compactItems style items) (itemTokens items) := by
  induction items with
  | nil => exact .nil
  | cons v items ih =>
    exact .cons (h v List.mem_cons_self) (ih fun v hv => h v (List.mem_cons_of_mem _ hv))

theorem lexes_fields {fields : List (Text × Json)}
    (hscalar : ∀ field ∈ fields, Text.isScalar field.1 = true)
    (h : ∀ field ∈ fields, Lexes d (compact style field.2) (tokensOf field.2)) :
    List.Forall₂ (Lexes d) (compactFields style fields) (fieldTokens fields) := by
  have hcolon : (Text.ofString ":", Token.colon) ∈ literals := by simp [literals]
  induction fields with
  | nil => exact .nil
  | cons field fields ih =>
    obtain ⟨name, v⟩ := field
    have hfield : Lexes d (compactField style (name, v)) (tokensOfField (name, v)) := by
      rw [compactField, tokensOfField, List.append_assoc]
      exact .after_stringText (hscalar _ List.mem_cons_self)
        ((h _ List.mem_cons_self).after_literal hcolon)
    exact .cons hfield (ih (fun field hf => hscalar field (List.mem_cons_of_mem _ hf))
      fun field hf => h field (List.mem_cons_of_mem _ hf))

/-- A compact text is cut into the tokens of the value. -/
theorem Plain.lexes (h : Plain room v) : Lexes d (compact style v) (tokensOf v) := by
  induction h with
  | null => exact lexes_literal (by simp [literals, compact])
  | bool room b =>
    cases b with
    | false => exact lexes_literal (by simp [literals, compact, boolText])
    | true => exact lexes_literal (by simp [literals, compact, boolText])
  | int room i => exact lexes_ofInt i
  | str room ht => exact lexes_stringText ht
  | arr _ ih =>
    rw [compact, tokensOf, List.append_assoc]
    exact ((lexes_joinComma (lexes_items ih)).before_literal (by simp [literals])).after_literal
      (by simp [literals])
  | obj _ scalar _ ih =>
    rw [compact, tokensOf, List.append_assoc]
    exact ((lexes_joinComma (lexes_fields scalar ih)).before_literal
      (by simp [literals])).after_literal (by simp [literals])

/-! ## The machine on the tokens of a value -/

/-- Where a value may stand. -/
def AwaitsValue : Expected → Prop
  | .value | .firstItem => True
  | _ => False

/-- A token is not too deep where no more containers are open than are allowed. -/
theorem not_tooDeep {expected : Expected} {stack : List OpenContainer} (token : Token)
    (h : stack.length ≤ d.maxDepth) :
    ¬ (startsContent expected token && decide (d.maxDepth < stack.length)) = true := by
  simp [Nat.not_lt.2 h]

/-- The values that are single tokens. -/
inductive IsScalarToken : Token → Json → Prop
  | null : IsScalarToken .null .null
  | bool (b : Bool) : IsScalarToken (.bool b) (.bool b)
  | int (i : Int) : IsScalarToken (.int i) (.int i)
  | str (t : Text) : IsScalarToken (.str t) (.str t)

variable {expected : Expected} {stack : List OpenContainer}

/-- A value that is a single token is delivered. -/
theorem advance_scalar (hexpected : AwaitsValue expected) (hstack : stack.length ≤ d.maxDepth)
    (htoken : IsScalarToken token v) :
    advance d (.within expected stack) token = .ok (deliver v stack) := by
  rw [advance.eq_def]
  dsimp only
  rw [if_neg (not_tooDeep token hstack)]
  cases expected with
  | value => cases htoken <;> rfl
  | firstItem => cases htoken <;> rfl
  | _ => exact hexpected.elim

/-- A container can be opened where a value may stand. -/
theorem openContainer_of_awaits (hexpected : AwaitsValue expected) (container : OpenContainer)
    (next : Expected) :
    openContainer container next expected stack = .ok (.within next (container :: stack)) := by
  cases expected with
  | value => rfl
  | firstItem => rfl
  | _ => exact hexpected.elim

/-- A bracket opens an array where a value is awaited. -/
theorem advance_openArray (hexpected : AwaitsValue expected) (hstack : stack.length ≤ d.maxDepth) :
    advance d (.within expected stack) .openArray =
      .ok (.within .firstItem (.array [] :: stack)) := by
  rw [advance.eq_def]
  dsimp only
  rw [if_neg (not_tooDeep _ hstack)]
  exact openContainer_of_awaits hexpected _ _

/-- A brace opens an object where a value is awaited. -/
theorem advance_openObject (hexpected : AwaitsValue expected) (hstack : stack.length ≤ d.maxDepth) :
    advance d (.within expected stack) .openObject =
      .ok (.within .firstName (.object [] :: stack)) := by
  rw [advance.eq_def]
  dsimp only
  rw [if_neg (not_tooDeep _ hstack)]
  exact openContainer_of_awaits hexpected _ _

/-- The name of a field, the colon after it, and its value. -/
theorem advanceAll_name {fields : List (Text × Json)} {name : Text} {ts : List Token}
    (hexpected : expected = .firstName ∨ expected = .name) (hstack : stack.length < d.maxDepth) :
    advanceAll d (.within expected (.object fields :: stack)) (.str name :: .colon :: ts) =
      advanceAll d (.within .value (.member fields name :: stack)) ts := by
  have hname : advance d (.within expected (.object fields :: stack)) (.str name) =
      .ok (.within .colon (.member fields name :: stack)) := by
    rw [advance.eq_def]
    dsimp only
    rw [if_neg (not_tooDeep _ (by exact hstack))]
    rcases hexpected with rfl | rfl
    · rfl
    · rfl
  rw [advanceAll, hname]
  rfl

/-- A new field comes last. -/
theorem setField_of_not_mem {α : Type} {name : Text} {value : α} {fields : List (Text × α)}
    (h : name ∉ fields.map (·.1)) : setField name value fields = fields ++ [(name, value)] := by
  induction fields with
  | nil => rfl
  | cons field fields ih =>
    rw [List.map_cons, List.mem_cons, not_or] at h
    rw [setField, if_neg (Ne.symm h.1), ih h.2, List.cons_append]

/-- The tokens of a value make a reader deliver the value. -/
def Delivers (d : Dialect) (room : Nat) (v : Json) : Prop :=
  ∀ expected stack ts, AwaitsValue expected → stack.length + room ≤ d.maxDepth →
    advanceAll d (.within expected stack) (tokensOf v ++ ts) = advanceAll d (deliver v stack) ts

/-- The token of a scalar delivers it. -/
theorem delivers_scalar (h : IsScalarToken token v) (htokens : tokensOf v = [token]) :
    Delivers d room v := by
  intro expected stack ts hexpected hstack
  rw [htokens, List.singleton_append, advanceAll, advance_scalar hexpected (by omega) h]

/-- More items of an array are added to those before. -/
theorem advanceAll_items {items : List Json} (h : ∀ v ∈ items, Delivers d room v)
    (hstack : stack.length + 1 + room ≤ d.maxDepth) (before : List Json) (ts : List Token) :
    advanceAll d (.within .separator (.array before :: stack))
        ((itemTokens items).flatMap ([.comma] ++ ·) ++ .closeArray :: ts) =
      advanceAll d (deliver (.arr (before.reverse ++ items)) stack) ts := by
  induction items generalizing before with
  | nil =>
    rw [itemTokens, List.flatMap_nil, List.nil_append, advanceAll, List.append_nil]
    rfl
  | cons v items ih =>
    rw [itemTokens, List.flatMap_cons, List.append_assoc, List.append_assoc, List.singleton_append,
      advanceAll]
    show advanceAll d (.within .value (.array before :: stack)) _ = _
    rw [h v List.mem_cons_self .value (.array before :: stack) _ trivial hstack, deliver,
      ih (fun v hv => h v (List.mem_cons_of_mem _ hv))]
    simp

/-- An array is delivered if its items are, with one container less to open. -/
theorem delivers_arr {items : List Json} (h : ∀ v ∈ items, Delivers d room v) :
    Delivers d (room + 1) (.arr items) := by
  intro expected stack ts hexpected hstack
  have hroom : stack.length + 1 + room ≤ d.maxDepth := by omega
  rw [tokensOf, List.cons_append, advanceAll, advance_openArray hexpected (by omega)]
  dsimp only
  cases items with
  | nil => rfl
  | cons v items =>
    rw [itemTokens, intercalate_cons, List.append_assoc, List.append_assoc,
      h v List.mem_cons_self .firstItem (.array [] :: stack) _ trivial hroom, deliver,
        List.singleton_append,
      advanceAll_items (fun v hv => h v (List.mem_cons_of_mem _ hv)) hroom]
    rfl

/-- A field with a new name is added to those before. -/
theorem advanceAll_field {before : List (Text × Json)} {name : Text}
    (hexpected : expected = .firstName ∨ expected = .name) (h : Delivers d room v)
    (hname : name ∉ before.map (·.1)) (hstack : stack.length + 1 + room ≤ d.maxDepth)
    (ts : List Token) :
    advanceAll d (.within expected (.object before :: stack)) (tokensOfField (name, v) ++ ts) =
      advanceAll d (.within .separator (.object (before ++ [(name, v)]) :: stack)) ts := by
  rw [tokensOfField, List.cons_append, List.cons_append, advanceAll_name hexpected (by omega),
    h .value (.member before name :: stack) ts trivial hstack, deliver, setField_of_not_mem hname]

/-- More fields of an object are added to those before. -/
theorem advanceAll_fields {before fields : List (Text × Json)}
    (h : ∀ field ∈ fields, Delivers d room field.2)
    (hdistinct : ((before ++ fields).map (·.1)).Nodup)
    (hstack : stack.length + 1 + room ≤ d.maxDepth) (ts : List Token) :
    advanceAll d (.within .separator (.object before :: stack))
        ((fieldTokens fields).flatMap ([.comma] ++ ·) ++ .closeObject :: ts) =
      advanceAll d (deliver (.obj (before ++ fields)) stack) ts := by
  induction fields generalizing before with
  | nil =>
    rw [fieldTokens, List.flatMap_nil, List.nil_append, advanceAll, List.append_nil]
    rfl
  | cons field fields ih =>
    obtain ⟨name, v⟩ := field
    have hname : name ∉ before.map (·.1) := by
      rw [List.map_append, List.map_cons] at hdistinct
      exact fun hmem => (List.nodup_append.1 hdistinct).2.2 _ hmem _ List.mem_cons_self rfl
    -- the comma, then the field, which the names before do not hold
    rw [fieldTokens, List.flatMap_cons, List.append_assoc, List.append_assoc, List.singleton_append,
      advanceAll]
    show advanceAll d (.within .name (.object before :: stack)) _ = _
    rw [List.append_cons before] at hdistinct ⊢
    rw [advanceAll_field (.inr rfl) (h _ List.mem_cons_self) hname hstack,
      ih (fun field hf => h field (List.mem_cons_of_mem _ hf)) hdistinct]

/-- So is an object, whose names are different. -/
theorem delivers_obj {fields : List (Text × Json)} (h : ∀ field ∈ fields, Delivers d room field.2)
    (hdistinct : (fields.map (·.1)).Nodup) : Delivers d (room + 1) (.obj fields) := by
  intro expected stack ts hexpected hstack
  have hroom : stack.length + 1 + room ≤ d.maxDepth := by omega
  rw [tokensOf, List.cons_append, advanceAll, advance_openObject hexpected (by omega)]
  dsimp only
  cases fields with
  | nil => rfl
  | cons field fields =>
    obtain ⟨name, v⟩ := field
    rw [fieldTokens, intercalate_cons, List.append_assoc, List.append_assoc,
      advanceAll_field (.inl rfl) (h _ List.mem_cons_self) List.not_mem_nil hroom,
        List.singleton_append,
      advanceAll_fields (fun field hf => h field (List.mem_cons_of_mem _ hf)) (by exact hdistinct)
        hroom]
    rfl

/-! ## Reading compact texts -/

theorem itemTokens_eq_map (items : List Json) : itemTokens items = items.map tokensOf := by
  induction items with
  | nil => rfl
  | cons v items ih => rw [itemTokens, ih, List.map_cons]

theorem fieldTokens_eq_map (fields : List (Text × Json)) :
    fieldTokens fields = fields.map tokensOfField := by
  induction fields with
  | nil => rfl
  | cons field fields ih => rw [fieldTokens, ih, List.map_cons]

theorem mem_intercalate {α : Type} {sep : List α} {l : List (List α)} {x : α} (h : x ∉ sep) :
    x ∈ List.intercalate sep l ↔ ∃ a ∈ l, x ∈ a := by
  cases l with
  | nil => simp [List.intercalate]
  | cons a l => simp [intercalate_cons, h]

@[simp] theorem bad_mem_null : Token.bad ∉ tokensOf .null := by
  rw [tokensOf, List.mem_singleton]
  exact nofun

@[simp] theorem bad_mem_bool (b : Bool) : Token.bad ∉ tokensOf (.bool b) := by
  rw [tokensOf, List.mem_singleton]
  exact nofun

@[simp] theorem bad_mem_str (t : Text) : Token.bad ∉ tokensOf (.str t) := by
  rw [tokensOf, List.mem_singleton]
  exact nofun

/-- An integer that does not fit is a bad token. -/
@[simp] theorem bad_mem_int (i : Int) : .bad ∈ tokensOf (.int i) ↔ ¬ FitsReader i := by
  rw [tokensOf, List.mem_singleton, intToken]
  split
  · next h => exact ⟨nofun, fun hi => absurd h hi⟩
  · next h => exact ⟨fun _ => h, fun _ => rfl⟩

@[simp] theorem bad_mem_arr (items : List Json) :
    .bad ∈ tokensOf (.arr items) ↔ ∃ v ∈ items, .bad ∈ tokensOf v := by
  rw [tokensOf, itemTokens_eq_map]
  simp [mem_intercalate]

@[simp] theorem bad_mem_obj (fields : List (Text × Json)) :
    .bad ∈ tokensOf (.obj fields) ↔ ∃ field ∈ fields, .bad ∈ tokensOf field.2 := by
  rw [tokensOf, fieldTokens_eq_map]
  simp [mem_intercalate, tokensOfField]

/-- The tokens of a plain value make a reader deliver the value, if its integers fit. -/
theorem Plain.delivers (h : Plain room v) (hfits : .bad ∉ tokensOf v) : Delivers d room v := by
  induction h with
  | null => exact delivers_scalar .null rfl
  | bool room b => exact delivers_scalar (.bool b) rfl
  | int room i =>
    rw [bad_mem_int, not_not] at hfits
    exact delivers_scalar (.int i) (by rw [tokensOf, intToken, if_pos hfits])
  | str room ht => exact delivers_scalar (.str _) rfl
  | arr _ ih =>
    rw [bad_mem_arr] at hfits
    exact delivers_arr fun v hv => ih v hv fun hbad => hfits ⟨v, hv, hbad⟩
  | obj distinct _ _ ih =>
    rw [bad_mem_obj] at hfits
    exact delivers_obj (fun field hf => ih field hf fun hbad => hfits ⟨field, hf, hbad⟩) distinct

/-- The compact text of a plain value is read as its tokens. -/
theorem Plain.advanceAll_compact (h : Plain room v) (p : Progress) :
    advanceAll d p (tokens d (compact style v)) = advanceAll d p (tokensOf v) := by
  have hread : advanceAll d p (tokens d (compact style v ++ [])) =
      advanceAll d p (tokensOf v ++ tokens d []) := h.lexes [] nofun p
  have hnil : tokens d [] = [] := by rw [tokens]
  rwa [List.append_nil, hnil, List.append_nil] at hread

/-- Reading undoes compact writing. -/
theorem Plain.read_compact (h : Plain room v) (hroom : room ≤ d.maxDepth)
    (hfits : .bad ∉ tokensOf v) : read d (compact style v) = .ok v := by
  have hdelivers := h.delivers (d := d) hfits .value [] [] trivial (by simpa using hroom)
  rw [List.append_nil] at hdelivers
  rw [read, h.advanceAll_compact, hdelivers]
  rfl

/-- No machine gets through tokens one of which is bad. -/
theorem advanceAll_of_bad_mem (h : .bad ∈ ts) (p : Progress) :
    ∃ e, advanceAll d p ts = .error e := by
  induction ts generalizing p with
  | nil => exact absurd h List.not_mem_nil
  | cons token ts ih =>
    rw [advanceAll]
    cases hadvance : advance d p token with
    | error e => exact ⟨e, rfl⟩
    | ok p' =>
      rcases List.mem_cons.1 h with rfl | h
      · obtain ⟨e, he⟩ := advance_bad (d := d) p
        rw [he] at hadvance
        cases hadvance
      · exact ih h p'

/-- A value with an integer that does not fit is not read back. -/
theorem Plain.read_compact_of_bad (h : Plain room v) (hbad : .bad ∈ tokensOf v) :
    ∃ e, read d (compact style v) = .error e := by
  obtain ⟨e, he⟩ := advanceAll_of_bad_mem (d := d) hbad (.within .value [])
  exact ⟨e, by rw [read, h.advanceAll_compact, he]⟩

end CallAudit.Json
