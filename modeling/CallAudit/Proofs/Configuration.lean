import CallAudit.Proofs.Encoding
import CallAudit.Proofs.TomlLimits
import CallAudit.Settings.Config

/-!
# What becomes of a configuration file

A configuration file that cannot be read, or is not TOML, counts as empty. There are three ways in
which a file can stop a command all the same: it is not UTF-8, it is nested too deeply, or it has an
integer with too many digits. The last two need a file with hundreds of brackets or thousands of
digits (`SettingsTable.ofText_cases`), while the first needs one byte.
-/

namespace CallAudit

/-- Characters other than line ends are as many before and after line ends have been made the
same. -/
theorem Text.countP_unifyNewlines {p : CodePoint → Bool}
    (hreturn : p (CodePoint.ofChar '\r') = false) (hfeed : p (CodePoint.ofChar '\n') = false)
    (t : Text) : (unifyNewlines t).countP p = t.countP p := by
  fun_induction unifyNewlines t with
  | case1 => rfl
  | case2 rest ih =>
    rw [List.countP_cons_of_neg (by simp [hfeed]), List.countP_cons_of_neg (by simp [hreturn])]
    cases rest with
    | nil => rfl
    | cons d rest =>
      dsimp only at ih ⊢
      by_cases hd : d = CodePoint.ofChar '\n'
      · rw [if_pos hd, ih.1, List.countP_cons_of_neg (by simp [hd, hfeed])]
      · rw [if_neg hd, ih.2]
  | case3 c rest hc ih => rw [List.countP_cons, List.countP_cons, ih]

namespace SettingsTable

variable {files : FileTree} {root config : Option Path}

/-- The audit settings of a configuration: the entry if it is a table, and nothing otherwise. -/
theorem ofConfig_cases (table : SettingsTable) :
    (∀ entries, Value.entry? "audit" table = some (.map entries) → ofConfig table = entries) ∧
      ((∀ entries, Value.entry? "audit" table ≠ some (.map entries)) → ofConfig table = []) := by
  unfold ofConfig
  split
  · next entries h => simp [h]
  · next h => exact ⟨fun entries hentries => absurd hentries (h entries), fun _ => rfl⟩

/-- A text that is not TOML counts as empty, and every other one is read unless it has many brackets
or digits. -/
theorem ofText_cases (t : Text) :
    match ofText t with
    | .ok table => Toml.read (Text.unifyNewlines t) = .ok table ∨
        Toml.read (Text.unifyNewlines t) = .error .malformed ∧ table = []
    | .error e => e = .tooDeep ∧ Toml.maxDepth < 3 * t.countP Toml.isOpening ∨
        ∃ digits, e = .hugeInteger digits ∧ Toml.maxIntegerDigits < digits ∧
          digits ≤ t.countP CodePoint.isDigit := by
  -- line ends are neither brackets nor digits, so what is counted is the same before and after they
  -- are unified
  have hopening := Text.countP_unifyNewlines (p := Toml.isOpening) (by decide) (by decide) t
  have hdigits := Text.countP_unifyNewlines (p := CodePoint.isDigit) (by decide) (by decide) t
  cases hread : Toml.read (Text.unifyNewlines t) with
  | ok table => simp [ofText, hread]
  | error fault =>
    have hdue := Toml.read_dueTo hread
    cases fault with
    | malformed => simp [ofText, hread]
    | tooDeep =>
      have hdeep : Toml.maxDepth < 0 + 3 * (Text.unifyNewlines t).countP Toml.isOpening := hdue
      rw [hopening, Nat.zero_add] at hdeep
      simpa [ofText, hread] using hdeep
    | hugeInteger digits =>
      have hhuge : Toml.maxIntegerDigits < digits ∧
        digits ≤ (Text.unifyNewlines t).countP CodePoint.isDigit := hdue
      rw [hdigits] at hhuge
      simpa [ofText, hread] using hhuge

/-- **Bad configuration files.** A configuration file that the system does not let be read counts as
empty. The bytes of any other file decide:

* if they are not UTF-8, the configuration cannot be loaded, and neither can its audit settings;
* if they are the encoding of a text that is not TOML, the configuration is empty, and so are its
  audit settings;
* if they are the encoding of any text, the configuration is loaded, with the audit settings empty
  unless they are a table, or else the text has more opening brackets than a third of the greatest
  depth, or more digits than an integer may have. -/
theorem load_outcome (files : FileTree) (root config : Option Path) :
    (∀ fault, files.readBytes (configFile root config) = .error fault →
      fault.problem.isSystem = true →
      load files root config = .ok [] ∧ loadAudit files root config = .ok []) ∧
    ∀ bytes, files.readBytes (configFile root config) = .ok bytes →
      ((∀ t, Utf8.encode t ≠ .ok bytes) → ∃ fault, load files root config =
        .error (.undecodable fault) ∧
        loadAudit files root config = .error (.undecodable fault)) ∧
      ∀ t, Utf8.encode t = .ok bytes →
        (Toml.read (Text.unifyNewlines t) = .error .malformed →
          load files root config = .ok [] ∧ loadAudit files root config = .ok []) ∧
        ((∃ table settings, load files root config = .ok table ∧
          loadAudit files root config = .ok settings ∧
            (∀ entries, Value.entry? "audit" table = some (.map entries) → settings = entries) ∧
            ((∀ entries, Value.entry? "audit" table ≠ some (.map entries)) → settings = [])) ∨
          load files root config = .error .tooDeep ∧ Toml.maxDepth < 3 * t.countP Toml.isOpening ∨
          ∃ digits, load files root config = .error (.hugeInteger digits) ∧
            Toml.maxIntegerDigits < digits ∧
            digits ≤ t.countP CodePoint.isDigit) := by
  have hok {table : SettingsTable} (h : load files root config = .ok table) :
      loadAudit files root config = .ok (ofConfig table) := by rw [loadAudit, h]; rfl
  refine ⟨fun fault hfault hsystem => ?_, fun bytes hbytes => ⟨fun hinvalid => ?_, fun t ht => ?_⟩⟩
  · have hload : load files root config = .ok [] := by rw [load, hfault]; exact if_pos hsystem
    exact ⟨hload, hok hload⟩
  · cases hdecode : Utf8.decode bytes with
    | ok t => exact absurd (Utf8.decode_eq_ok.1 hdecode) (hinvalid t)
    | error fault =>
      have hload : load files root config = .error (.undecodable fault) := by
        simp only [load, hbytes, hdecode]
      exact ⟨fault, hload, by rw [loadAudit, hload]; rfl⟩
  · have hload : load files root config = ofText t := by
      simp only [load, hbytes, Utf8.decode_encode ht]
    refine ⟨fun hmalformed => ?_, ?_⟩
    · have hempty : load files root config = .ok [] := by simp only [hload, ofText, hmalformed]
      exact ⟨hempty, hok hempty⟩
    · have hcases := ofText_cases t
      rw [← hload] at hcases
      cases hresult : load files root config with
      | ok table => exact .inl ⟨table, _, rfl, hok hresult, ofConfig_cases table⟩
      | error e =>
        rw [hresult] at hcases
        rcases hcases with ⟨rfl, hdeep⟩ | ⟨digits, rfl, hdigits⟩
        · exact .inr (.inl ⟨rfl, hdeep⟩)
        · exact .inr (.inr ⟨digits, rfl, hdigits⟩)

/-- A configuration file with one byte that starts no character. -/
def strayByte : FileTree := { nodes := [([configName], .file (.bytes [0xff]))] }

/-- The byte is no UTF-8, so neither the file nor its audit settings can be loaded. -/
theorem load_outcome_strayByte :
    strayByte.readBytes (configFile none none) = .ok [0xff] ∧ (∀ t, Utf8.encode t ≠ .ok [0xff]) ∧
      ∃ fault, load strayByte none none = .error (.undecodable fault) ∧
        loadAudit strayByte none none = .error (.undecodable fault) := by
  have hbytes : strayByte.readBytes (configFile none none) = .ok [0xff] := by decide +kernel
  have hinvalid (t : Text) : Utf8.encode t ≠ .ok [0xff] := by
    intro h
    cases Utf8.decode_encode h
  exact ⟨hbytes, hinvalid, ((load_outcome strayByte none none).2 [0xff] hbytes).1 hinvalid⟩

end SettingsTable

end CallAudit
