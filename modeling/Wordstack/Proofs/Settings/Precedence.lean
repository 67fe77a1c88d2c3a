-- SUMMARY: Every setting comes from the highest layer that gives it, and nothing else takes part.
import Wordstack.Proofs.Settings.Environment

/-!
# Precedence of layers

The settings of a request are read off the values of the highest layers, so a value that is
shadowed takes no part, whatever it is (`Settings.build_of_agreeUnshadowed`). Neither do
variables that are not asked for, nor files that are not looked at
(`Settings.build_without_environment`, `Settings.build_of_path`).

This is said of the variables as they stand after the file of variables, since a value in that
file may refer to any variable. What is not referred to can also be changed where it is set
(`SettingsRequest.AgreeOn.filter_effectiveEnvironment`).
-/

namespace Wordstack

open Environment (pathVariable)

variable {r r' : SettingsRequest} {file file' : Layer}

/-- Whether a variable, by its name, bears on no setting that is asked for outright. -/
def Overrides.leaves (o : Overrides) (name : String) : Bool :=
  ((Environment.settingKey? name).bind fun k => o.value? k.name).isNone

namespace SettingsRequest

/-- The values of two requests differ at most where a higher layer gives one. -/
structure AgreeUnshadowed (r r' : SettingsRequest) (file file' : Layer) : Prop where
  overrides : r.overrides = r'.overrides
  environment : ∀ key ∈ Settings.keys, r.overrides.value? key = none →
    r.environmentLayer.value? key = r'.environmentLayer.value? key
  file : ∀ key ∈ Settings.keys, r.overrides.value? key = none →
    r.environmentLayer.value? key = none → file.value? key = file'.value? key

theorem AgreeUnshadowed.value?_eq (h : r.AgreeUnshadowed r' file file') :
    ∀ key ∈ Settings.keys, r.value? file key = r'.value? file' key := by
  intro key hkey
  unfold value?
  rw [← h.overrides]
  cases hoverride : r.overrides.value? key with
  | some v => rfl
  | none =>
    rw [← h.environment key hkey hoverride]
    cases henvironment : r.environmentLayer.value? key with
    | some v => rfl
    | none => rw [h.file key hkey hoverride henvironment]

theorem effectiveEnvironment_of_not_used (h : r.useEnvironment = false) :
    r.effectiveEnvironment = [] := by
  rw [effectiveEnvironment, h]
  rfl

theorem effectiveEnvironment_of_used (h : r.useEnvironment = true) :
    r.effectiveEnvironment = r.environment.acceptAll r.offers := by
  rw [effectiveEnvironment, if_pos h]

/-- Variables that do not bear on a setting do not matter to it. -/
theorem filter_environmentLayer_congr {p : String × String → Bool} {key : String}
    (hother : ∀ entry, p entry = false → ¬ Environment.Bears key entry)
    (h : r.effectiveEnvironment.filter p = r'.effectiveEnvironment.filter p) :
    r.environmentLayer.filter (·.key.name == key) =
      r'.environmentLayer.filter (·.key.name == key) := by
  have hfilter (env : Environment) := Environment.filter_layer_filter hother env
  change r.effectiveEnvironment.layer.filter _ = r'.effectiveEnvironment.layer.filter _
  rw [← hfilter r.effectiveEnvironment, h, hfilter]

/-- What the file of variables offers to variables that are not set. -/
def missing (r : SettingsRequest) : List Environment.Offer :=
  r.offers.filter fun offer => (r.environment.get? offer.name).isNone

theorem acceptAll_missing (r : SettingsRequest) :
    r.environment.acceptAll r.missing = r.environment.acceptAll r.offers :=
  Environment.acceptAll_filter (by simp [Option.isSome_iff_ne_none]) _

/-- Two requests have the same variables of some names, and what the file of variables gives
to these refers to no others. -/
structure AgreeOn (p : String → Bool) (r r' : SettingsRequest) : Prop where
  useEnvironment : r.useEnvironment = r'.useEnvironment
  environment : r.environment.filter (p ·.1) = r'.environment.filter (p ·.1)
  missing : r.missing.filter (p ·.name) = r'.missing.filter (p ·.name)
  closed : ∀ offer ∈ r.missing, p offer.name = true →
    ∀ name ∈ offer.references, p name = true

theorem AgreeOn.closed_right {p : String → Bool} (h : AgreeOn p r r') :
    ∀ offer ∈ r'.missing, p offer.name = true → ∀ name ∈ offer.references, p name = true := by
  intro offer hoffer hp
  have hmem : offer ∈ r.missing.filter (p ·.name) := by
    rw [h.missing]
    exact List.mem_filter.mpr ⟨hoffer, hp⟩
  exact h.closed offer (List.mem_of_mem_filter hmem) hp

/-- Variables of other names do not matter to those of some names, nor does what a file offers
to variables that are set. -/
theorem AgreeOn.filter_effectiveEnvironment {p : String → Bool} (h : AgreeOn p r r') :
    r.effectiveEnvironment.filter (p ·.1) = r'.effectiveEnvironment.filter (p ·.1) := by
  cases huse : r.useEnvironment with
  | false =>
    rw [effectiveEnvironment_of_not_used huse,
      effectiveEnvironment_of_not_used (h.useEnvironment ▸ huse)]
  | true =>
    rw [effectiveEnvironment_of_used huse, effectiveEnvironment_of_used (h.useEnvironment ▸ huse),
      ← acceptAll_missing, ← acceptAll_missing,
      Environment.filter_acceptAll h.environment h.closed, h.missing,
      ← Environment.filter_acceptAll rfl h.closed_right]

end SettingsRequest

namespace Settings

/-- Values that are shadowed matter neither to whether there are settings nor to any of
them. -/
theorem build_of_agreeUnshadowed (hfile : r.fileLayer = .ok file)
    (hfile' : r'.fileLayer = .ok file') (h : r.AgreeUnshadowed r' file file') (s : Settings) :
    build r = .ok s ↔ build r' = .ok s := by
  simp only [build_eq_ok_iff, hfile, hfile', Except.ok.injEq, exists_eq_left']
  refine and_congr_left fun _ => ⟨fun hread => ?_, fun hread => ?_⟩
  · exact hread.congr fun key hkey => (h.value?_eq key hkey).symm
  · exact hread.congr h.value?_eq

/-- Variables that bear on settings which are asked for outright take no part. -/
theorem build_of_leaves (hformats : r.formats = r'.formats)
    (hoverrides : r.overrides = r'.overrides) (hpath : r.path = r'.path)
    (hplaces : ∀ place ∈ SettingsRequest.places r.formats r.namedPath,
      r.folder.entry place = r'.folder.entry place)
    (henvironment : r.effectiveEnvironment.filter (r.overrides.leaves ·.1) =
      r'.effectiveEnvironment.filter (r.overrides.leaves ·.1)) (s : Settings) :
    build r = .ok s ↔ build r' = .ok s := by
  have hleaves : r.overrides.leaves pathVariable = true := by
    have hkey : Environment.settingKey? pathVariable = some { name := "config_path" } := by
      decide +kernel
    simp [Overrides.leaves, hkey, Overrides.value?]
  have hnamed : r.namedPath = r'.namedPath := by
    have hget : r.effectiveEnvironment.get? pathVariable =
        r'.effectiveEnvironment.get? pathVariable := by
      rw [← Environment.get?_filter hleaves, henvironment, Environment.get?_filter hleaves]
    exact congrArg₂ (· <|> ·) hpath hget
  have hfile := SettingsRequest.fileLayer_congr hformats hnamed hplaces
  cases hlayer : r.fileLayer with
  | error e => simp [build_eq_ok_iff, ← hfile, hlayer]
  | ok file =>
    refine build_of_agreeUnshadowed hlayer (hfile ▸ hlayer) ⟨hoverrides, ?_, fun _ _ _ _ => rfl⟩ s
    intro key _ hnone
    have hother : ∀ entry : String × String, r.overrides.leaves entry.1 = false →
        ¬ Environment.Bears key entry := by
      rintro entry hentry ⟨-, hbears⟩
      obtain ⟨k, hk, rfl⟩ := Option.map_eq_some_iff.mp hbears
      simp [Overrides.leaves, hk, hnone] at hentry
    have hlayers := SettingsRequest.filter_environmentLayer_congr hother henvironment
    rw [← Layer.value_get?, ← Layer.value_get?, Layer.get?_congr hlayers]

/-- Without the environment only the files matter that are looked at for the configuration. -/
theorem build_without_environment (h : r.useEnvironment = false) (h' : r'.useEnvironment = false)
    (hformats : r.formats = r'.formats) (hoverrides : r.overrides = r'.overrides)
    (hpath : r.path = r'.path)
    (hplaces : ∀ place ∈ SettingsRequest.places r.formats r.path,
      r.folder.entry place = r'.folder.entry place) : build r = build r' := by
  have hempty := SettingsRequest.effectiveEnvironment_of_not_used h
  have hempty' := SettingsRequest.effectiveEnvironment_of_not_used h'
  have hnamed : r.namedPath = r.path := by
    simp [SettingsRequest.namedPath, hempty, Environment.get?]
  have hnamed' : r'.namedPath = r'.path := by
    simp [SettingsRequest.namedPath, hempty', Environment.get?]
  refine build_congr (SettingsRequest.fileLayer_congr hformats ?_ (hnamed ▸ hplaces)) hoverrides ?_
  · rw [hnamed, hnamed', hpath]
  · intro key _
    simp only [SettingsRequest.environmentLayer, hempty, hempty']

/-- If the configuration file is named outright, no other file is looked at for it, and the
variable that names one takes no part. -/
theorem build_of_path {path : String} (hpath : r.path = some path) (hpath' : r'.path = some path)
    (hformats : r.formats = r'.formats) (hoverrides : r.overrides = r'.overrides)
    (hplaces : ∀ place ∈ SettingsRequest.places r.formats (some path),
      r.folder.entry place = r'.folder.entry place)
    (henvironment : r.effectiveEnvironment.filter (·.1 != pathVariable) =
      r'.effectiveEnvironment.filter (·.1 != pathVariable)) : build r = build r' := by
  have hnamed : r.namedPath = some path := by simp [SettingsRequest.namedPath, hpath]
  have hnamed' : r'.namedPath = some path := by simp [SettingsRequest.namedPath, hpath']
  refine build_congr (SettingsRequest.fileLayer_congr hformats ?_ (hnamed ▸ hplaces)) hoverrides ?_
  · rw [hnamed, hnamed']
  · intro key hkey
    have hother : ∀ entry : String × String, (entry.1 != pathVariable) = false →
        ¬ Environment.Bears key entry := by
      rintro ⟨name, value⟩ hname
      obtain rfl : name = pathVariable := by simpa using hname
      exact Environment.not_bears_pathVariable hkey value
    exact SettingsRequest.filter_environmentLayer_congr hother henvironment

-- -----------------------------------------------------------------------
-- All layers together
-- -----------------------------------------------------------------------

end Settings

end Wordstack
