import CallAudit.Ingest.Records
import CallAudit.Proofs.Results
import CallAudit.Proofs.StoredRecords

/-!
# What readers let through

A reader takes integers up to a number of digits, and a dialect without unpaired surrogates reads
texts of scalar values only (`Json.readable_of_read`). The checks of a record hand this on: the
lines of the locations in a record fit a reader again (`Checked.fitsReader_of_int`), also where a
line is given as a text or as a floating-point number, and the names in a stored record consist of
scalar values.
-/

namespace CallAudit

namespace Json

variable {d : Dialect} {t rest whole : Text} {token : Token} {i : Int}

/-- A text that a dialect allows in a string. -/
def Allows (d : Dialect) (t : Text) : Prop := d.loneSurrogates = true ∨ Text.isScalar t = true

/-- What can come of reading a text. -/
inductive Readable (d : Dialect) : Json → Prop
  | null : Readable d .null
  | bool (b : Bool) : Readable d (.bool b)
  | int {i : Int} (fits : FitsReader i) : Readable d (.int i)
  | float (x : Binary64) : Readable d (.float x)
  | str {t : Text} (allowed : Allows d t) : Readable d (.str t)
  | arr {items : List Json} (all : ∀ v ∈ items, Readable d v) : Readable d (.arr items)
  | obj {fields : List (Text × Json)} (all : ∀ field ∈ fields, Readable d field.2) :
    Readable d (.obj fields)

/-! ## Tokens -/

/-- What can come of cutting a text into tokens. -/
def Token.IsReadable (d : Dialect) : Token → Prop
  | .int i => FitsReader i
  | .str t => Allows d t
  | _ => True

/-- The whole part of a number has digits and nothing else. -/
theorem digits_of_scanWhole (h : scanWhole t = some (whole, rest)) :
    0 < whole.length ∧ ∀ c ∈ whole, c.isDigit = true := by
  cases t with
  | nil => cases h
  | cons c t =>
    rw [scanWhole] at h
    split at h
    · next hzero =>
      obtain ⟨rfl, -⟩ := Prod.mk.inj (Option.some.inj h)
      refine ⟨Nat.one_pos, fun c' hc' => ?_⟩
      rw [List.mem_singleton.1 hc', CodePoint.isDigit, hzero]
      rfl
    · split at h
      · next hdigit =>
        obtain ⟨rfl, -⟩ := Prod.mk.inj (Option.some.inj h)
        refine ⟨?_, fun c' hc' => List.all_eq_true.1 List.all_takeWhile c' hc'⟩
        rw [List.takeWhile_cons_of_pos hdigit]
        exact Nat.succ_pos _
      · cases h

/-- Digits that are not too many make up an integer that fits. -/
theorem fitsReader_of_scanWhole (h : scanWhole t = some (whole, rest))
    (hlength : whole.length ≤ maxIntegerDigits) (hi : i.natAbs = digitsValue whole) :
    FitsReader i := by
  obtain ⟨hpos, hdigits⟩ := digits_of_scanWhole h
  refine fitsReader_of_natAbs_lt hpos hlength ?_
  have hbound : ∀ n ∈ whole.map (fun c => c.val - 48), n < 10 := by
    intro n hn
    obtain ⟨c, hc, rfl⟩ := List.mem_map.1 hn
    have hdigit := hdigits c hc
    rw [CodePoint.isDigit, Bool.and_eq_true, decide_eq_true_eq, decide_eq_true_eq] at hdigit
    omega
  have hlt := Text.ofDecimalDigits_lt hbound
  rw [List.length_map] at hlt
  rw [hi]
  exact hlt

theorem natAbs_signed (negative : Bool) (n : Nat) :
    (if negative then -(n : Int) else n).natAbs = n := by
  cases negative <;> simp

/-- A number that was scanned is one that a reader takes. -/
theorem isReadable_of_scanNumber {negative : Bool}
    (h : scanNumber d negative t = some (token, rest)) : token.IsReadable d := by
  unfold scanNumber at h
  split at h
  · cases h
  · next whole rest' hwhole =>
    dsimp only at h
    split at h
    · cases h
    · next hlength =>
      split at h
      · next hinteger =>
        obtain ⟨rfl, -⟩ := Prod.mk.inj (Option.some.inj h)
        refine fitsReader_of_scanWhole hwhole ?_ (natAbs_signed negative _)
        simpa [hinteger] using hlength
      · obtain ⟨rfl, -⟩ := Prod.mk.inj (Option.some.inj h)
        trivial

/-- A string that was scanned holds no surrogates that the dialect does not allow. -/
theorem allows_of_scanString {s : Text} (h : scanString d t = some (s, rest)) : Allows d s := by
  unfold scanString at h
  split at h
  · next units after hunits =>
    dsimp only at h
    split at h
    · next hallowed =>
      obtain ⟨rfl, -⟩ := Prod.mk.inj (Option.some.inj h)
      exact (Bool.or_eq_true _ _).mp hallowed
    · cases h
  · cases h

/-- A token that was scanned is one that a reader takes. -/
theorem isReadable_of_scanToken (h : scanToken d t = some (token, rest)) : token.IsReadable d := by
  have hliterals : ∀ p ∈ literals, p.2.IsReadable d := by simp [literals, Token.IsReadable]
  unfold scanToken at h
  split at h
  · next r hliteral =>
    obtain rfl := Option.some.inj h
    obtain ⟨p, hp, hmatch⟩ := List.exists_of_findSome?_eq_some hliteral
    obtain ⟨rest', -, heq⟩ := Option.map_eq_some_iff.1 hmatch
    obtain ⟨rfl, -⟩ := Prod.mk.inj heq
    exact hliterals p hp
  · split at h
    · cases h
    · next c tail =>
      split at h
      · obtain ⟨⟨s, r⟩, hstring, heq⟩ := Option.map_eq_some_iff.1 h
        obtain ⟨rfl, -⟩ := Prod.mk.inj heq
        exact allows_of_scanString hstring
      · split at h
        · exact isReadable_of_scanNumber h
        · exact isReadable_of_scanNumber h

/-- All tokens of a text are such that a reader takes them. -/
theorem isReadable_of_mem_tokens (d : Dialect) (t : Text) :
    ∀ token ∈ tokens d t, token.IsReadable d := by
  fun_induction tokens d t with
  | case1 => simp
  | case2 c rest hspace ih => exact ih
  | case3 c rest hspace token rest' hscan ih =>
    intro other hother
    rcases List.mem_cons.1 hother with rfl | hother
    · exact isReadable_of_scanToken hscan
    · exact ih other hother
  | case4 c rest hspace hscan =>
    intro other hother
    rw [List.mem_singleton.1 hother]
    trivial

/-! ## The machine -/

/-- All values in an open container can be read. -/
def OpenContainer.IsReadable (d : Dialect) : OpenContainer → Prop
  | .array items => ∀ v ∈ items, Readable d v
  | .object fields => ∀ field ∈ fields, Readable d field.2
  | .member fields _ => ∀ field ∈ fields, Readable d field.2

/-- All values that the machine holds can be read. -/
def Progress.IsReadable (d : Dialect) : Progress → Prop
  | .within _ stack => ∀ container ∈ stack, container.IsReadable d
  | .done v => Readable d v

/-- A readable value keeps the containers readable. -/
theorem isReadable_deliver {v : Json} {stack : List OpenContainer} (hv : Readable d v)
    (hstack : ∀ container ∈ stack, container.IsReadable d) : (deliver v stack).IsReadable d := by
  cases stack with
  | nil => exact hv
  | cons container stack =>
    obtain ⟨hcontainer, houter⟩ := List.forall_mem_cons.1 hstack
    cases container with
    | array items => exact List.forall_mem_cons.2 ⟨List.forall_mem_cons.2 ⟨hv, hcontainer⟩, houter⟩
    | object fields => exact List.forall_mem_cons.2 ⟨hcontainer, houter⟩
    | member fields name =>
      refine List.forall_mem_cons.2 ⟨fun field hfield => ?_, houter⟩
      rcases mem_setField hfield with rfl | hfield
      · exact hv
      · exact hcontainer field hfield

/-- So does a value without parts. -/
theorem isReadable_takeScalar {v : Json} {expected : Expected} {stack : List OpenContainer}
    {p : Progress} (hv : Readable d v) (hstack : ∀ container ∈ stack, container.IsReadable d)
    (h : takeScalar v expected stack = .ok p) : p.IsReadable d := by
  unfold takeScalar at h
  split at h
  · exact Except.ok.inj h ▸ isReadable_deliver hv hstack
  · exact Except.ok.inj h ▸ isReadable_deliver hv hstack
  · cases h

/-- A container that is opened is readable as long as it is empty. -/
theorem isReadable_openContainer {container : OpenContainer} {next expected : Expected}
    {stack : List OpenContainer} {p : Progress} (hcontainer : container.IsReadable d)
    (hstack : ∀ container ∈ stack, container.IsReadable d)
    (h : openContainer container next expected stack = .ok p) : p.IsReadable d := by
  unfold openContainer at h
  split at h
  · exact Except.ok.inj h ▸ List.forall_mem_cons.2 ⟨hcontainer, hstack⟩
  · exact Except.ok.inj h ▸ List.forall_mem_cons.2 ⟨hcontainer, hstack⟩
  · cases h

section
variable {items : List Json} {fields : List (Text × Json)} {outer : List OpenContainer}

theorem isReadable_member (hstack : ∀ container ∈ .object fields :: outer, container.IsReadable d)
    (name : Text) : (Progress.within .colon (.member fields name :: outer)).IsReadable d := by
  obtain ⟨hfields, houter⟩ := List.forall_mem_cons.1 hstack
  exact List.forall_mem_cons.2 ⟨hfields, houter⟩

theorem isReadable_closeArray (hstack : ∀ container ∈ .array items ::
    outer, container.IsReadable d) : (deliver (.arr items.reverse) outer).IsReadable d := by
  obtain ⟨hitems, houter⟩ := List.forall_mem_cons.1 hstack
  exact isReadable_deliver (.arr fun v hv => hitems v (List.mem_reverse.1 hv)) houter

theorem isReadable_closeObject (hstack : ∀ container ∈ .object fields ::
    outer, container.IsReadable d) : (deliver (.obj fields) outer).IsReadable d := by
  obtain ⟨hfields, houter⟩ := List.forall_mem_cons.1 hstack
  exact isReadable_deliver (.obj hfields) houter

end

/-- A token adds nothing that cannot be read. -/
theorem isReadable_advance {p p' : Progress} (hp : p.IsReadable d) (htoken : token.IsReadable d)
    (h : advance d p token = .ok p') : p'.IsReadable d := by
  -- a token delivers a value, opens or closes a container, names a member, or leaves the stack as
  -- it is
  cases p with
  | done v => cases h
  | within expected stack =>
    have hstack : ∀ container ∈ stack, container.IsReadable d := hp
    rw [advance.eq_def] at h
    dsimp only at h
    split at h
    · cases h
    · cases token with
      | null => exact isReadable_takeScalar .null hstack h
      | bool b => exact isReadable_takeScalar (.bool b) hstack h
      | int i => exact isReadable_takeScalar (.int htoken) hstack h
      | float x => exact isReadable_takeScalar (.float x) hstack h
      | openArray => exact isReadable_openContainer (by simp [OpenContainer.IsReadable]) hstack h
      | openObject => exact isReadable_openContainer (by simp [OpenContainer.IsReadable]) hstack h
      | bad => cases h
      | str t =>
        dsimp only at h
        split at h
        · exact Except.ok.inj h ▸ isReadable_member hstack t
        · exact Except.ok.inj h ▸ isReadable_member hstack t
        · exact isReadable_takeScalar (.str htoken) hstack h
      | closeArray =>
        dsimp only at h
        split at h
        · exact Except.ok.inj h ▸ isReadable_closeArray hstack
        · exact Except.ok.inj h ▸ isReadable_closeArray hstack
        · cases h
      | closeObject =>
        dsimp only at h
        split at h
        · exact Except.ok.inj h ▸ isReadable_closeObject hstack
        · exact Except.ok.inj h ▸ isReadable_closeObject hstack
        · cases h
      | comma =>
        dsimp only at h
        split at h
        · exact Except.ok.inj h ▸ hp
        · exact Except.ok.inj h ▸ hp
        · cases h
      | colon =>
        dsimp only at h
        split at h
        · exact Except.ok.inj h ▸ hp
        · cases h

/-- Reading any number of readable tokens keeps all values readable. -/
theorem isReadable_advanceAll {ts : List Token} {p p' : Progress} (hp : p.IsReadable d)
    (hts : ∀ token ∈ ts, token.IsReadable d) (h : advanceAll d p ts = .ok p') :
    p'.IsReadable d := by
  induction ts generalizing p with
  | nil => exact Except.ok.inj h ▸ hp
  | cons token ts ih =>
    obtain ⟨htoken, hts⟩ := List.forall_mem_cons.1 hts
    rw [advanceAll] at h
    split at h
    · next p₁ hadvance => exact ih (isReadable_advance hp htoken hadvance) hts h
    · cases h

/-- **Reading.** The integers in a value that has been read fit a reader, and its strings are
allowed. -/
theorem readable_of_read {v : Json} (h : read d t = .ok v) : Readable d v := by
  have hstart : (Progress.within .value []).IsReadable d := by simp [Progress.IsReadable]
  unfold read at h
  split at h
  · next v' hall =>
    obtain rfl := Except.ok.inj h
    exact isReadable_advanceAll hstart (isReadable_of_mem_tokens d t) hall
  · cases h
  · cases h

/-- What stands in a readable object is readable. -/
theorem Readable.of_lookup? {fields : List (Text × Json)} {name : Text} {v : Json}
    (h : Readable d (.obj fields)) (hv : lookup? name fields = some v) : Readable d v := by
  cases h with
  | obj all =>
    induction fields with
    | nil => cases hv
    | cons field rest ih =>
      obtain ⟨n, w⟩ := field
      obtain ⟨hfirst, hrest⟩ := List.forall_mem_cons.1 all
      rw [lookup?] at hv
      split at hv
      · exact Option.some.inj hv ▸ hfirst
      · exact ih hv hrest

end Json

/-! ## Checks that succeed -/

namespace Checked

open Json

variable {α β γ : Type} {d : Dialect} {check : Json → Checked α} {fields : List (Text × Json)}
  {name : Text}

/-- Two checks succeed together if and only if each does. -/
theorem zip_eq_ok {x : Checked α} {y : Checked β} {p : α × β} :
    zip x y = .ok p ↔ x = .ok p.1 ∧ y = .ok p.2 := by
  cases x <;> cases y <;> simp [zip, Prod.ext_iff]

theorem located_eq_ok {x : Checked α} {step : PathStep} {a : α} :
    at_ step x = .ok a ↔ x = .ok a := by
  cases x <;> simp [at_]

/-- A field that is required has to be there and to pass its check. -/
theorem required_eq_ok {a : α} :
    required fields name check = .ok a ↔ ∃ v, lookup? name fields = some v ∧ check v = .ok a := by
  rw [required, located_eq_ok]
  cases lookup? name fields <;> simp [fail]

/-- A field that may be left out has a value of its own then. -/
theorem optional_eq_ok {a fallback : α} :
    optional fields name fallback check = .ok a ↔
      (∃ v, lookup? name fields = some v ∧ check v = .ok a) ∨ lookup? name fields = none ∧
        fallback = a := by
  rw [optional]
  cases lookup? name fields <;> simp [located_eq_ok]

/-- What a list was checked to be comes from its items. -/
theorem mem_of_items {vs : List Json} {i : Nat} {as : List α} (h : items check i vs = .ok as) :
    ∀ a ∈ as, ∃ v ∈ vs, check v = .ok a := by
  induction vs generalizing i as with
  | nil =>
    obtain rfl := Except.ok.inj h
    simp
  | cons v vs ih =>
    rw [items, map_eq_ok] at h
    obtain ⟨⟨a, rest⟩, hboth, rfl⟩ := h
    obtain ⟨ha, hrest⟩ := zip_eq_ok.1 hboth
    intro b hb
    rcases List.mem_cons.1 hb with rfl | hb
    · exact ⟨v, List.mem_cons_self, located_eq_ok.1 ha⟩
    · obtain ⟨w, hw, hcheck⟩ := ih hrest b hb
      exact ⟨w, List.mem_cons_of_mem _ hw, hcheck⟩

/-- Each part of a list comes from a value that can be read. -/
theorem readable_of_list {v : Json} {as : List α} (hv : Readable d v)
    (h : Checked.list check v = .ok as) : ∀ a ∈ as, ∃ w, Readable d w ∧ check w = .ok a := by
  cases hv with
  | arr all =>
    intro a ha
    obtain ⟨w, hw, hcheck⟩ := mem_of_items h a ha
    exact ⟨w, all w hw, hcheck⟩
  | null => cases h
  | bool => cases h
  | int => cases h
  | float => cases h
  | str => cases h
  | obj => cases h

/-- Only objects are checked as objects. -/
theorem object_eq_ok {model : Text} {check : List (Text × Json) → Checked α} {v : Json} {a : α} :
    object model check v = .ok a ↔ ∃ fields, v = .obj fields ∧ check fields = .ok a := by
  cases v <;> simp [object, fail]

/-- A text that was checked is one that was read. -/
theorem allows_of_text {v : Json} {t : Text} (hv : Readable d v) (h : text v = .ok t) :
    Allows d t := by
  cases hv with
  | str allowed =>
    obtain rfl := Except.ok.inj h
    exact allowed
  | null => cases h
  | bool => cases h
  | int => cases h
  | float => cases h
  | arr => cases h
  | obj => cases h

/-- A text is taken for an integer only if this has no more digits than a reader takes. -/
theorem fitsReader_of_plain {t : Text} {i : Int} (h : Numeral.plain t = .ok i) : FitsReader i := by
  unfold Numeral.plain at h
  split at h
  · cases h
  · next whole rest hwhole =>
    split at h
    · cases h
    · next hlength =>
      split at h
      · rw [← Except.ok.inj h]
        exact fitsReader_of_scanWhole hwhole (Nat.not_lt.1 hlength) (natAbs_signed _ _)
      · cases h

/-- This holds with signs, zeros in front and underscores, too. -/
theorem fitsReader_of_numeral {t : Text} {i : Int} (h : Numeral.read t = .ok i) : FitsReader i := by
  unfold Numeral.read at h
  split at h
  · next hplain => exact fitsReader_of_plain (hplain.trans h)
  · cases h
  · split at h
    · next hcleaned =>
      obtain ⟨t', -, hplain⟩ := Option.map_eq_some_iff.1 hcleaned
      exact fitsReader_of_plain (hplain.trans h)
    · cases h

/-- An integer that was given as a floating-point number has few digits. -/
theorem fitsReader_of_intOfFloat {x : Binary64} {i : Int} (h : intOfFloat x = .ok i) :
    FitsReader i := by
  unfold intOfFloat at h
  split at h
  · cases h
  · split at h
    · cases h
    · split at h
      · next hword =>
        obtain rfl := Except.ok.inj h
        rw [Bool.and_eq_true, decide_eq_true_eq, decide_eq_true_eq, wordBound] at hword
        exact fitsReader_of_natAbs_lt (k := 19) (by decide) (by decide) (by omega)
      · cases h

/-- An integer fits a reader, in whatever form it is given. -/
theorem fitsReader_of_int {v : Json} {i : Int} (hv : Readable d v) (h : int v = .ok i) :
    FitsReader i := by
  cases hv with
  | int fits =>
    obtain rfl := Except.ok.inj h
    exact fits
  | bool b =>
    obtain rfl := Except.ok.inj h
    exact fitsReader_of_natAbs_lt (k := 1) (by decide) (by decide) (by cases b <;> decide)
  | float x => exact fitsReader_of_intOfFloat h
  | str allowed =>
    rw [int] at h
    split at h
    · unfold intOfText at h
      split at h
      · next hread =>
        obtain rfl := Except.ok.inj h
        exact fitsReader_of_numeral hread
      · cases h
      · cases h
    · cases h
  | null => cases h
  | arr => cases h
  | obj => cases h

end Checked

/-! ## Records -/

open Json Checked

variable {d : Dialect} {v : Json}

/-- The line of a location that was read has no more digits than a reader takes. -/
theorem SourceLocation.fits_of_check {l : SourceLocation} (hv : Readable d v)
    (h : format.check v = .ok l) : FitsReader l.line := by
  obtain ⟨fields, rfl, h⟩ := object_eq_ok.1 h
  obtain ⟨⟨file, line⟩, hboth, rfl⟩ := map_eq_ok.1 h
  obtain ⟨u, hu, hline⟩ := required_eq_ok.1 (zip_eq_ok.1 hboth).2
  exact fitsReader_of_int (hv.of_lookup? hu) hline

/-- The names in a call edge are allowed, and its line fits. -/
structure CallEdge.Legible (d : Dialect) (e : CallEdge) : Prop where
  callee : Allows d e.callee
  typeParams : ∀ t ∈ e.typeParams, Allows d t
  line : FitsReader e.location.line

/-- The names of a call that was read are allowed, and its line fits. -/
theorem CallEdge.legible_of_check {e : CallEdge} (hv : Readable d v) (h : format.check v = .ok e) :
    e.Legible d := by
  obtain ⟨fields, rfl, h⟩ := object_eq_ok.1 h
  obtain ⟨⟨callee, isLangItem, typeParams, location⟩, hall, rfl⟩ := map_eq_ok.1 h
  obtain ⟨hcallee, hrest⟩ := zip_eq_ok.1 hall
  obtain ⟨hparams, hlocation⟩ := zip_eq_ok.1 (zip_eq_ok.1 hrest).2
  obtain ⟨u, hu, hcallee⟩ := required_eq_ok.1 hcallee
  obtain ⟨l, hl, hlocation⟩ := required_eq_ok.1 hlocation
  refine ⟨allows_of_text (hv.of_lookup? hu) hcallee, ?_,
    SourceLocation.fits_of_check (hv.of_lookup? hl) hlocation⟩
  rcases optional_eq_ok.1 hparams with ⟨ps, hps, hparams⟩ | ⟨-, rfl⟩
  · intro t ht
    obtain ⟨w, hw, htext⟩ := readable_of_list (hv.of_lookup? hps) hparams t ht
    exact allows_of_text hw htext
  · simp

/-- The line of a marking that was read has no more digits than a reader takes. -/
theorem MarkingRecord.fits_of_check {r : MarkingRecord} (hv : Readable d v)
    (h : format.check v = .ok r) : FitsReader r.location.line := by
  obtain ⟨fields, rfl, h⟩ := object_eq_ok.1 h
  obtain ⟨⟨name, marking, location⟩, hall, rfl⟩ := map_eq_ok.1 h
  obtain ⟨l, hl, hlocation⟩ := required_eq_ok.1 (zip_eq_ok.1 (zip_eq_ok.1 hall).2).2
  exact SourceLocation.fits_of_check (hv.of_lookup? hl) hlocation

/-- So are those of all calls of a record. -/
theorem CallRecord.legible_of_check {r : CallRecord} (hv : Readable d v)
    (h : format.check v = .ok r) : ∀ e ∈ r.edges, e.Legible d := by
  obtain ⟨fields, rfl, h⟩ := object_eq_ok.1 h
  obtain ⟨⟨caller, edges⟩, hboth, rfl⟩ := map_eq_ok.1 h
  rcases optional_eq_ok.1 (zip_eq_ok.1 hboth).2 with ⟨es, hes, hedges⟩ | ⟨-, rfl⟩
  · intro e he
    obtain ⟨w, hw, hcheck⟩ := readable_of_list (hv.of_lookup? hes) hedges e he
    exact CallEdge.legible_of_check hw hcheck
  · simp

/-- What is read from a cell comes from a value that can be read. -/
theorem Store.readable_of_decodeCell {α : Type} {format : RecordFormat α} {cell : Cell} {a : α}
    (h : decodeCell format cell = .ok a) :
    ∃ v, Readable storedDialect v ∧ format.check v = .ok a := by
  have hstored {t : Text} (h : decodeText format t = .ok a) :
      ∃ v, Readable storedDialect v ∧ format.check v = .ok a := by
    rw [decodeText, RecordFormat.ofStored, RecordFormat.checkStored] at h
    cases hscalar : Text.isScalar t with
    | false => simp [hscalar, fail, Except.mapError] at h
    | true =>
      cases hread : Json.read storedDialect t with
      | error e => simp [hscalar, hread, fail, Except.mapError] at h
      | ok v =>
        refine ⟨v, readable_of_read hread, ?_⟩
        cases hcheck : format.check v with
        | error faults => simp [hscalar, hread, hcheck, Except.mapError] at h
        | ok b =>
          simp only [hscalar, hread, hcheck, Except.mapError] at h
          exact congrArg Except.ok (Except.ok.inj h)
  cases cell with
  | text bytes =>
    rw [decodeCell] at h
    split at h
    · exact hstored h
    · cases h
  | blob bytes =>
    rw [decodeCell] at h
    split at h
    · exact hstored h
    · cases h
  | int i => cases h
  | float x => cases h

/-- The record on a line comes from a value that can be read. -/
theorem Ingest.readable_of_recordOf {α : Type} {format : RecordFormat α} {source : Text}
    {line : Nat × Text} {r : α} (h : recordOf format source line = .ok r) :
    ∃ v, Readable inputDialect v ∧ format.check v = .ok r := by
  unfold recordOf readObject at h
  cases hread : Json.read inputDialect line.2 with
  | error e => cases e <;> simp [hread] at h
  | ok v =>
    refine ⟨v, readable_of_read hread, ?_⟩
    cases v with
    | obj fields =>
      simp only [hread, RecordFormat.ofPayload] at h
      cases hcheck : format.check (.obj fields) with
      | error faults => simp [hcheck, Except.mapError] at h
      | ok b =>
        simp only [hcheck, Except.mapError] at h
        exact congrArg Except.ok (Except.ok.inj h)
    | null => simp [hread] at h
    | bool => simp [hread] at h
    | int => simp [hread] at h
    | float => simp [hread] at h
    | str => simp [hread] at h
    | arr => simp [hread] at h

end CallAudit
