-- SUMMARY: What becomes of the text of a variable on its way to a setting that is a text.
import Wordstack.Proofs.Number.Plain
import Wordstack.Proofs.Settings.Environment

/-!
# Settings that are texts

A request that gives a text outright, and a configuration file that gives it as a string, are
taken at their word. The text of a variable is first read as a truth value or a number if it
can be, and that is written back. So it is kept exactly if it is the text of such a value, or
stands for none: `RawValue.toText_ofVariable_iff`.
-/

namespace Wordstack

-- -----------------------------------------------------------------------
-- Texts of values
-- -----------------------------------------------------------------------

/-- What the texts of numbers start with, the infinite ones and not-a-number among them. -/
def numberStarts : List Char := ['0', '1', '2', '3', '4', '5', '6', '7', '8', '9', '-', 'N', 'i']

/-- The text starts like that of a number. -/
def StartsNumber (s : String) : Prop := ∃ c ∈ s.toList.head?, c ∈ numberStarts

namespace StartsNumber

variable {s : String}

/-- No word for a truth value starts like a number, in whatever case. -/
theorem lowercase_not_mem (h : StartsNumber s) : Text.lowercase s ∉ ["true", "false"] := by
  obtain ⟨c, hc, hmem⟩ := h
  obtain ⟨cs, hcs⟩ := List.head?_eq_some_iff.mp hc
  have hall : numberStarts.all (fun c =>
      c.toNat != 0x3a3 && (Text.lowerChar c).head?.any fun d => d != 't' && d != 'f') = true := by
    decide +kernel
  have hfirst := List.all_eq_true.mp hall c hmem
  rw [Bool.and_eq_true, bne_iff_ne, Option.any_eq_true] at hfirst
  obtain ⟨hsigma, d, hd, hother⟩ := hfirst
  have hhead : (Text.lowercase s).toList.head? = some d := by
    simp [Text.lowercase, hcs, Text.lowerFrom, hsigma, hd]
  intro hword
  simp only [List.mem_cons, List.not_mem_nil, or_false] at hword
  rcases hword with hword | hword
  · rw [hword] at hhead
    cases hhead
    exact absurd hother (by decide)
  · rw [hword] at hhead
    cases hhead
    exact absurd hother (by decide)

theorem isAllBlank_eq (h : StartsNumber s) : Text.isAllBlank s = false := by
  obtain ⟨c, hc, hmem⟩ := h
  have hall : numberStarts.all (!Text.isBlank ·) = true := by decide
  have hblank := List.all_eq_true.mp hall c hmem
  refine List.all_eq_false.mpr ⟨c, List.mem_of_mem_head? hc, ?_⟩
  simpa using hblank

theorem of_valid {n : Numeral} (h : n.Valid) : StartsNumber (String.ofList n.chars) := by
  obtain ⟨c, cs, hchars, hc⟩ := h.starts
  refine ⟨c, by simp [hchars], ?_⟩
  rcases hc with rfl | hc
  · simp [numberStarts]
  · exact List.mem_append_left _ (Decimal.isDigit_iff.mp hc)

theorem of_int (i : Int) : StartsNumber (toString i) := by
  rw [← Numeral.chars_ofInt]
  exact of_valid (Numeral.valid_ofInt i)

theorem of_float (v : Float) : StartsNumber (Number.plainText v) := by
  cases h : Number.scaled? v with
  | some parts =>
    rw [Number.plainText_eq h]
    exact of_valid (Number.valid_plainNumeral (Number.canonical_of_scaled? h))
  | none =>
    simp only [Number.plainText, h]
    split
    · exact ⟨'N', by decide, by simp [numberStarts]⟩
    · split
      · exact ⟨'-', by decide, by simp [numberStarts]⟩
      · exact ⟨'i', by decide, by simp [numberStarts]⟩

end StartsNumber

namespace RawValue

variable {s : String}

/-- The text is that of no truth value and no number, however they may be written. -/
structure StandsForItself (s : String) : Prop where
  word : Text.lowercase s ∉ ["true", "false"]
  literal : s.toList ∉ Decimal.literal.matches'
  name : String.ofList ((Decimal.splitSign s.toList).2.map Char.toLower) ∉
    ["inf", "infinity", "nan"]

theorem float?_eq_none_iff : float? s = none ↔ s.toList ∉ Decimal.literal.matches' ∧
    String.ofList ((Decimal.splitSign s.toList).2.map Char.toLower) ∉
      ["inf", "infinity", "nan"] := by
  rw [← Decimal.isSome_parse?_iff, float?]
  cases Decimal.parse? s.toList with
  | some d => simp
  | none =>
    simp only [Option.isSome_none, Bool.false_eq_true, not_false_eq_true, true_and]
    split
    next h =>
      rw [Bool.or_eq_true, decide_eq_true_eq, decide_eq_true_eq] at h
      rcases h with h | h <;> simp [h]
    next h =>
      split
      next hnan => simp [hnan]
      next hnan => simp_all

theorem bounds_of_int? {i : Int} (h : int? s = some i) :
    Int64.minValue.toInt ≤ i ∧ i ≤ Int64.maxValue.toInt := by
  simp only [int?, Option.ite_none_left_eq_some, Option.ite_none_right_eq_some,
    Option.some.injEq] at h
  obtain ⟨-, hbounds, rfl⟩ := h
  simpa using hbounds

/-- What is read as an integer is a literal. -/
theorem int?_eq_none (h : s.toList ∉ Decimal.literal.matches') : int? s = none := by
  cases hint : int? s with
  | none => rfl
  | some i =>
    simp only [int?, Option.ite_none_left_eq_some, Bool.not_eq_true, Bool.or_eq_false_iff,
      Bool.not_eq_false', List.isEmpty_eq_false_iff, List.all_eq_true] at hint
    obtain ⟨hdigits, -⟩ := hint
    obtain ⟨u, hu, hs⟩ := Decimal.exists_sign s.toList
    refine absurd (Decimal.mem_mul.mpr ⟨u, hu, _, ?_, hs⟩) h
    exact Decimal.mem_mul.mpr ⟨_, Decimal.mem_significand.mpr (.inl hdigits), [],
      Decimal.mem_optional.mpr (.inl rfl), List.append_nil _⟩

/-- The texts that come back as they are. -/
inductive Kept : String → Prop where
  | true : Kept "true"
  | false : Kept "false"
  | int (i : Int64) : Kept (toString i.toInt)
  /-- The sign of a zero is lost. -/
  | float (v : Float) (h : Number.plainText v ≠ "-0") : Kept (Number.plainText v)
  | itself {s : String} (h : StandsForItself s) : Kept s

theorem ofVariable_of_int {i : Int} (hword : Text.lowercase s ∉ ["true", "false"])
    (h : int? s = some i) : ofVariable s = .int i := by
  simp_all [ofVariable]

theorem ofVariable_of_float {v : Float} (hword : Text.lowercase s ∉ ["true", "false"])
    (hint : int? s = none) (h : float? s = some v) : ofVariable s = .float v := by
  simp_all [ofVariable]

theorem StandsForItself.ofVariable_eq (h : StandsForItself s) : ofVariable s = .text s := by
  have hword := h.word
  have hint := int?_eq_none h.literal
  have hfloat := float?_eq_none_iff.mpr ⟨h.literal, h.name⟩
  simp_all [ofVariable]

/-- A number that is written out is written back, whether it is read as an integer or not. -/
theorem toText_ofVariable_plainText {v : Float} (h : Number.plainText v ≠ "-0") :
    toText (ofVariable (Number.plainText v)) = .ok (Number.plainText v) := by
  have hword := (StartsNumber.of_float v).lowercase_not_mem
  cases hint : int? (Number.plainText v) with
  | none =>
    obtain ⟨w, hw, hsame⟩ := Number.float?_plainText v
    rw [ofVariable_of_float hword hint hw, toText, hsame]
  | some i =>
    rw [ofVariable_of_int hword hint, toText]
    cases hv : Number.scaled? v with
    | none =>
      have hnone : int? (Number.plainText v) = none := by
        simp only [Number.plainText, hv]
        split
        · rfl
        · split <;> rfl
      rw [hnone] at hint
      cases hint
    | some parts =>
      have hvalid := Number.valid_plainNumeral (Number.canonical_of_scaled? hv)
      rw [Number.plainText_eq hv] at hint h ⊢
      obtain ⟨hwhole, rfl⟩ := hvalid.of_int?_chars hint
      rw [hwhole.toString_int hvalid]
      rintro hnegative hzero
      refine h ?_
      simp [Numeral.chars, Numeral.fractionChars, Numeral.powerChars, hwhole.fraction,
        hwhole.power, Number.withSign, hnegative, hzero]

/-- The text of a variable is kept exactly if it is a canonical one or stands for itself. -/
theorem toText_ofVariable_iff : toText (ofVariable s) = .ok s ↔ Kept s := by
  constructor
  · intro h
    have hstands := stands_ofVariable s
    generalize ofVariable s = v at hstands h
    cases hstands with
    | true =>
      cases h
      exact .true
    | false =>
      cases h
      exact .false
    | @int i hword hint =>
      obtain rfl : toString i = s := Except.ok.inj h
      obtain ⟨hmin, hmax⟩ := bounds_of_int? hint
      have hkept := Kept.int (.ofIntLE i hmin hmax)
      rwa [Int64.toInt_ofIntLE] at hkept
    | @float v hword hint hfloat =>
      obtain rfl : Number.plainText v = s := Except.ok.inj h
      refine .float v fun hzero => ?_
      rw [hzero] at hint
      cases hint
    | text hword hint hfloat =>
      obtain ⟨hliteral, hname⟩ := float?_eq_none_iff.mp hfloat
      exact .itself ⟨hword, hliteral, hname⟩
  · intro h
    cases h with
    | true => decide +kernel
    | false => decide +kernel
    | int i =>
      have hint : int? (toString i.toInt) = some i.toInt := by
        have hread := (Numeral.isWhole_ofInt i.toInt).int?_chars (Numeral.valid_ofInt i.toInt)
        rw [Numeral.int_ofInt, Numeral.chars_ofInt] at hread
        exact hread i.minValue_le_toInt i.toInt_le
      rw [ofVariable_of_int (StartsNumber.of_int i.toInt).lowercase_not_mem hint, toText]
    | float v h => exact toText_ofVariable_plainText h
    | itself h => rw [h.ofVariable_eq, toText]

theorem exists_toText_ofVariable (s : String) : ∃ text, toText (ofVariable s) = .ok text ∧
    (Text.isAllBlank s = false → Text.isAllBlank text = false) := by
  have hstands := stands_ofVariable s
  generalize ofVariable s = v at hstands
  cases hstands with
  | true => exact ⟨"true", rfl, fun _ => by decide⟩
  | false => exact ⟨"false", rfl, fun _ => by decide⟩
  | @int i => exact ⟨toString i, rfl, fun _ => (StartsNumber.of_int i).isAllBlank_eq⟩
  | @float v => exact ⟨Number.plainText v, rfl, fun _ => (StartsNumber.of_float v).isAllBlank_eq⟩
  | text => exact ⟨s, rfl, fun h => h⟩

end RawValue

-- -----------------------------------------------------------------------
-- The settings
-- -----------------------------------------------------------------------

/-- The settings that are texts. -/
inductive TextSetting where
  | entry
  | version
  | logLevel
deriving DecidableEq, Repr

namespace TextSetting

variable (k : TextSetting)

def key : TextSetting → String
  | .entry => "entry"
  | .version => "version"
  | .logLevel => "log_level"

/-- The variable of the setting. -/
def variableName : TextSetting → String
  | .entry => "NUMEN_ENTRY"
  | .version => "NUMEN_VERSION"
  | .logLevel => "NUMEN_LOG_LEVEL"

def default : TextSetting → String
  | .entry => defaultEntry
  | .version => defaultVersion
  | .logLevel => "warn"

def get (s : Settings) : TextSetting → String
  | .entry => s.entry
  | .version => s.version
  | .logLevel => s.logLevel

def set (s : Settings) (text : String) : TextSetting → Settings
  | .entry => { s with entry := text }
  | .version => { s with version := text }
  | .logLevel => { s with logLevel := text }

/-- Asks for a text outright. -/
def ask (o : Overrides) (text : String) : TextSetting → Overrides
  | .entry => { o with entry := some text }
  | .version => { o with version := some text }
  | .logLevel => { o with logLevel := some text }

theorem settingKey?_variableName :
    Environment.settingKey? k.variableName = some { name := k.key } := by
  cases k <;> decide +kernel

theorem set_get (s : Settings) : k.set s (k.get s) = s := by
  cases k <;> rfl

theorem value?_ask (o : Overrides) (text key : String) :
    (k.ask o text).value? key = if key = k.key then some (.text text) else o.value? key := by
  cases k <;> simp only [ask, TextSetting.key, Overrides.value?] <;> repeat' split
  all_goals simp_all

end TextSetting

/-- The request that asks for a text outright, whatever else it gives. -/
def SettingsRequest.asking (r : SettingsRequest) (k : TextSetting) (text : String) :
    SettingsRequest := { r with overrides := k.ask r.overrides text }

namespace Settings

variable {r : SettingsRequest} {k : TextSetting} {s : Settings} {text : String}
  {value? value?' : String → Option RawValue}

theorem ReadOff.takes (h : s.ReadOff value?) (k : TextSetting) :
    Takes RawValue.toText k.default (value? k.key) (k.get s) := by
  cases k with
  | entry => exact h.entry
  | version => exact h.version
  | logLevel => exact h.logLevel

/-- Another value for one of the texts changes this setting and no other. -/
theorem ReadOff.set (h : s.ReadOff value?) (hother : ∀ key, key ≠ k.key → value?' key = value? key)
    (hkey : Takes RawValue.toText k.default (value?' k.key) text) :
    (k.set s text).ReadOff value?' := by
  have hrequire := hother "require_entry" (by cases k <;> decide)
  have hframes := hother "max_frames" (by cases k <;> decide)
  cases k with
  | entry =>
    have hversion := hother "version" (by decide)
    have hlevel := hother "log_level" (by decide)
    exact ⟨hkey, hrequire ▸ h.requireEntry, hframes ▸ h.maxFrames, hversion ▸ h.version,
      hlevel ▸ h.logLevel⟩
  | version =>
    have hentry := hother "entry" (by decide)
    have hlevel := hother "log_level" (by decide)
    exact ⟨hentry ▸ h.entry, hrequire ▸ h.requireEntry, hframes ▸ h.maxFrames, hkey,
      hlevel ▸ h.logLevel⟩
  | logLevel =>
    have hentry := hother "entry" (by decide)
    have hversion := hother "version" (by decide)
    exact ⟨hentry ▸ h.entry, hrequire ▸ h.requireEntry, hframes ▸ h.maxFrames,
      hversion ▸ h.version, hkey⟩

/-- Only the text of a value matters to such a setting. -/
theorem ReadOff.congr_text {v w : RawValue} (h : s.ReadOff value?)
    (hother : ∀ key, key ≠ k.key → value?' key = value? key) (hv : value? k.key = some v)
    (hw : value?' k.key = some w) (hvw : v.toText = w.toText) : s.ReadOff value?' := by
  have htakes := h.takes k
  rw [hv, Takes, hvw] at htakes
  rw [← k.set_get s]
  exact h.set hother (by rwa [hw])

theorem value?_asking (r : SettingsRequest) (file : Layer) (k : TextSetting) (text key : String) :
    (r.asking k text).value? file key =
      if key = k.key then some (.text text) else r.value? file key := by
  simp only [SettingsRequest.value?, SettingsRequest.asking, TextSetting.value?_ask]
  split <;> rfl

/-- What is asked for outright is taken at its word. -/
theorem get_of_build_asking (h : build (r.asking k text) = .ok s) : k.get s = text := by
  obtain ⟨file, -, hread, -⟩ := build_eq_ok_iff.mp h
  have htakes := hread.takes k
  rw [value?_asking, if_pos rfl] at htakes
  exact (Except.ok.inj htakes).symm

/-- Another text asked for changes this setting and no other. -/
theorem build_asking_set {text' : String} (hblank : Text.isAllBlank text' = false)
    (h : build (r.asking k text) = .ok s) : build (r.asking k text') = .ok (k.set s text') := by
  obtain ⟨file, hfile, hread, hentry, hframes⟩ := build_eq_ok_iff.mp h
  refine build_eq_ok_iff.mpr ⟨file, hfile, ?_, ?_, ?_⟩
  · refine hread.set (fun key hkey => ?_) ?_
    · rw [value?_asking, value?_asking, if_neg hkey, if_neg hkey]
    · rw [value?_asking, if_pos rfl]
      rfl
  · cases k with
    | entry => exact hblank
    | version => exact hentry
    | logLevel => exact hentry
  · cases k <;> exact hframes

/-- A value counts as if its text were asked for outright. -/
theorem build_iff_asking {file : Layer} {v : RawValue} (hfile : r.fileLayer = .ok file)
    (hvalue : r.value? file k.key = some v) (htext : v.toText = .ok text) (s : Settings) :
    build r = .ok s ↔ build (r.asking k text) = .ok s := by
  have hother (key : String) (hkey : key ≠ k.key) :
      (r.asking k text).value? file key = r.value? file key := by
    rw [value?_asking, if_neg hkey]
  have hasked : (r.asking k text).value? file k.key = some (.text text) := by
    rw [value?_asking, if_pos rfl]
  have hfile' : (r.asking k text).fileLayer = .ok file := hfile
  simp only [build_eq_ok_iff, hfile, hfile', Except.ok.injEq, exists_eq_left']
  refine and_congr_left fun _ => ⟨fun hread => ?_, fun hread => ?_⟩
  · exact hread.congr_text hother hvalue hasked htext
  · exact hread.congr_text (fun key hkey => (hother key hkey).symm) hasked hvalue htext.symm

/-- A variable counts as if the text were asked for that is left of its own. -/
theorem build_iff_of_variable {before after : Environment} {given : String}
    (hnone : r.overrides.value? k.key = none)
    (henvironment : r.effectiveEnvironment = before ++ (k.variableName, given) :: after)
    (hgiven : given ≠ "") (hafter : ∀ entry ∈ after, ¬ Environment.Bears k.key entry)
    (htext : (RawValue.ofVariable given).toText = .ok text) (s : Settings) :
    build r = .ok s ↔ build (r.asking k text) = .ok s := by
  have hvariable : r.environmentLayer.value? k.key = some (.ofVariable given) := by
    change r.effectiveEnvironment.layer.value? k.key = _
    rw [henvironment]
    exact (Environment.Gives.last hgiven k.settingKey?_variableName rfl hafter).eq_value?
  cases hfile : r.fileLayer with
  | error e =>
    have hfile' : (r.asking k text).fileLayer = .error e := hfile
    simp [build_eq_ok_iff, hfile, hfile']
  | ok file =>
    refine build_iff_asking hfile ?_ htext s
    rw [SettingsRequest.value?, hnone, hvariable]
    rfl

/-- A text that is asked for outright, or that the configuration file gives as a string, is
taken at its word. The text of a variable is so exactly if it is kept; otherwise the variable
counts as if the text of the value were asked for that it is read as. -/
theorem text_of_variable (k : TextSetting) (given : String)
    (hblank : Text.isAllBlank given = false) :
    (∀ (r : SettingsRequest) (text : String) (s : Settings), build (r.asking k text) = .ok s →
      k.get s = text ∧ build (r.asking k given) = .ok (k.set s given)) ∧
    (∀ (r : SettingsRequest) (file : Layer), r.overrides.value? k.key = none →
      r.environmentLayer.value? k.key = none → r.fileLayer = .ok file →
      file.value? k.key = some (.text given) →
      ∀ s, build r = .ok s ↔ build (r.asking k given) = .ok s) ∧
    ∃ text, Text.isAllBlank text = false ∧ (RawValue.ofVariable given).toText = .ok text ∧
      ∀ (r : SettingsRequest) (before after : Environment), r.overrides.value? k.key = none →
        r.effectiveEnvironment = before ++ (k.variableName, given) :: after →
        (∀ entry ∈ after, ¬ Environment.Bears k.key entry) →
        ∀ s, (build r = .ok s ↔ build (r.asking k text) = .ok s) ∧
          (build r = .ok s → (k.get s = given ↔ RawValue.Kept given)) := by
  refine ⟨fun r text s h => ⟨get_of_build_asking h, build_asking_set hblank h⟩, ?_, ?_⟩
  · intro r file hnone hvariable hfile hvalue s
    have hread : r.value? file k.key = some (.text given) := by
      rw [SettingsRequest.value?, hnone, hvariable, hvalue]
      rfl
    exact build_iff_asking hfile hread rfl s
  · obtain ⟨text, htext, hkept⟩ := RawValue.exists_toText_ofVariable given
    refine ⟨text, hkept hblank, htext, fun r before after hnone henvironment hafter s => ?_⟩
    have hgiven : given ≠ "" := by
      rintro rfl
      cases hblank
    have hiff := build_iff_of_variable hnone henvironment hgiven hafter htext s
    refine ⟨hiff, fun hbuild => ?_⟩
    rw [get_of_build_asking (hiff.mp hbuild), ← RawValue.toText_ofVariable_iff, htext,
      Except.ok.injEq]

/-- A version that stands for no number is kept. -/
theorem text_of_variable_of_beta :
    let r : SettingsRequest :=
      { folder := .ofEntries [], environment := [("NUMEN_VERSION", "1.0-beta")] }
    RawValue.Kept "1.0-beta" ∧ build r = .ok { version := "1.0-beta" } := by
  intro r
  have hkept : RawValue.Kept "1.0-beta" := by
    refine .itself ⟨by decide +kernel, ?_, by decide +kernel⟩
    rw [← Decimal.isSome_parse?_iff]
    decide
  obtain ⟨hasked, -, text, -, htext, hvariable⟩ := text_of_variable .version "1.0-beta" (by decide)
  obtain rfl : "1.0-beta" = text := by
    rwa [RawValue.toText_ofVariable_iff.mpr hkept, Except.ok.injEq] at htext
  have hother : build (r.asking .version "2") = .ok { version := "2" } :=
    Except.eq_ok_of_toOption (by decide +kernel)
  exact ⟨hkept, (hvariable r [] [] rfl rfl (by simp) _).1.mpr (hasked r "2" _ hother).2⟩

/-- A version with a needless zero is read as a number and arrives without it. -/
theorem text_of_variable_drops_zero :
    let r : SettingsRequest :=
      { folder := .ofEntries [], environment := [("NUMEN_VERSION", "1.0")] }
    build r = .ok { version := "1" } ∧
      build (r.asking .version "1.0") = .ok { version := "1.0" } := by
  intro r
  exact ⟨Except.eq_ok_of_toOption (by decide +kernel), Except.eq_ok_of_toOption (by decide +kernel)⟩

end Settings

end Wordstack
