-- SUMMARY: What layers make of a setting, and the settings that a request leads to, key by key.
import Mathlib.Data.List.Find
import Mathlib.Data.List.Induction
import Wordstack.Proofs.Except
import Wordstack.Settings.Layers

/-!
# Settings key by key

Of all the assignments to a setting the last one that gives a value counts, so of several
layers the highest one does (`Layer.value?_append`). The settings of a request are read off
these values, one for each key, and no other values take part: `Settings.build_eq_ok_iff`.
-/

namespace Wordstack

-- -----------------------------------------------------------------------
-- Values of layers
-- -----------------------------------------------------------------------

/-- The value that an assignment gives to its setting. A step makes that a table or a list,
whatever stands behind it, and an empty table gives nothing. -/
def Assignment.value? (a : Assignment) : Option RawValue :=
  match a.key.step, a.given.value with
  | none, .table true => none
  | none, v => some v
  | some .field, _ => some (.table false)
  | some .item, _ => some .list

namespace Layer

variable {layer : Layer} {name : String}

/-- The value that a layer gives to a setting: that of the last assignment which gives one. -/
def value? (layer : Layer) (name : String) : Option RawValue :=
  layer.reverse.findSome? fun a => if a.key.name = name then a.value? else none

/-- What the higher layer gives counts before what the lower one does. -/
theorem value?_append (lower upper : Layer) (name : String) :
    value? (lower ++ upper) name = (value? upper name).or (value? lower name) := by
  simp only [value?, List.reverse_append, List.findSome?_append]

theorem value?_concat (a : Assignment) :
    value? (layer ++ [a]) name =
      if a.key.name = name then a.value?.or (layer.value? name) else layer.value? name := by
  rw [value?_append]
  split
  next h => simp [value?, h]
  next h => simp [value?, h]

theorem get?_concat (a : Assignment) :
    get? (layer ++ [a]) name =
      if a.key.name = name then a.apply (layer.get? name) else layer.get? name := by
  split
  next h => simp [get?, h]
  next h => simp [get?, h]

theorem get?_congr {layer' : Layer}
    (h : layer.filter (·.key.name == name) = layer'.filter (·.key.name == name)) :
    layer.get? name = layer'.get? name := by
  simp only [get?, h]

end Layer

/-- An assignment that gives a value puts it in the place of the one before. -/
theorem Assignment.value_apply (a : Assignment) (before : Option Given) :
    (a.apply before).map Given.value = a.value?.or (before.map Given.value) := by
  unfold apply value?
  split
  next hstep hvalue => simp [hstep, hvalue]
  next hstep hvalue => simp [hstep, hvalue]
  next hstep hempty hfull =>
    rw [hstep]
    split <;> simp_all
  next hstep => simp [hstep]
  next hstep =>
    rw [hstep]
    split <;> rfl

/-- The value that comes of the assignments to a setting is the one that the layer gives. -/
theorem Layer.value_get? (layer : Layer) (name : String) :
    (layer.get? name).map Given.value = layer.value? name := by
  induction layer using List.reverseRecOn with
  | nil => rfl
  | append_singleton layer a ih =>
    rw [get?_concat, value?_concat]
    split
    · rw [Assignment.value_apply, ih]
    · exact ih

theorem Layer.value?_eq_none {layer : Layer} {name : String}
    (h : layer.filter (·.key.name == name) = []) : layer.value? name = none := by
  rw [← value_get?, get?, h]
  rfl

-- -----------------------------------------------------------------------
-- Settings from values
-- -----------------------------------------------------------------------

namespace Settings

/-- The keys of the settings. -/
def keys : List String := ["entry", "require_entry", "max_frames", "version", "log_level"]

/-- A setting takes the value that is given for it if that suits it, and its default if none
is given. -/
def Takes {α : Type} (convert : RawValue → Except (Unfit × Need) α) (default : α) :
    Option RawValue → α → Prop
  | none, a => a = default
  | some v, a => convert v = .ok a

/-- The settings are those that some values make, given by key. -/
structure ReadOff (s : Settings) (value? : String → Option RawValue) : Prop where
  entry : Takes RawValue.toText defaultEntry (value? "entry") s.entry
  requireEntry : Takes RawValue.toBool true (value? "require_entry") s.requireEntry
  maxFrames : Takes RawValue.toCount 1000000 (value? "max_frames") s.maxFrames
  version : Takes RawValue.toText defaultVersion (value? "version") s.version
  logLevel : Takes RawValue.toText "warn" (value? "log_level") s.logLevel

variable {s : Settings} {layers : List Layer}

/-- Values of other keys take no part. -/
theorem ReadOff.congr {value? value?' : String → Option RawValue} (h : s.ReadOff value?)
    (hsame : ∀ key ∈ keys, value?' key = value? key) : s.ReadOff value?' where
  entry := hsame "entry" (by simp [keys]) ▸ h.entry
  requireEntry := hsame "require_entry" (by simp [keys]) ▸ h.requireEntry
  maxFrames := hsame "max_frames" (by simp [keys]) ▸ h.maxFrames
  version := hsame "version" (by simp [keys]) ▸ h.version
  logLevel := hsame "log_level" (by simp [keys]) ▸ h.logLevel

theorem field_eq_ok_iff {α : Type} {convert : RawValue → Except (Unfit × Need) α} {default a : α}
    {key : String} :
    field layers key convert default = .ok a ↔
      Takes convert default (Layer.value? layers.flatten key) a := by
  rw [← Layer.value_get?, field]
  cases Layer.get? layers.flatten key with
  | none => exact ⟨fun h => (Except.ok.inj h).symm, fun h => congrArg Except.ok (Eq.symm h)⟩
  | some given =>
    obtain ⟨v, origin⟩ := given
    simp only [Option.map_some, Takes]
    cases convert v with
    | error e => simp
    | ok b => simp

theorem ofLayers_eq_ok_iff :
    ofLayers layers = .ok s ↔ s.ReadOff (Layer.value? layers.flatten) := by
  simp only [ofLayers, Except.bind_eq_ok_iff, field_eq_ok_iff]
  constructor
  · rintro ⟨entry, hentry, requireEntry, hrequire, maxFrames, hframes, version, hversion, logLevel,
      hlevel, ⟨⟩⟩
    exact ⟨hentry, hrequire, hframes, hversion, hlevel⟩
  · intro h
    exact ⟨_, h.entry, _, h.requireEntry, _, h.maxFrames, _, h.version, _, h.logLevel, rfl⟩

theorem ofLayers_congr {layers layers' : List Layer}
    (h : ∀ key ∈ keys, Layer.get? layers.flatten key = Layer.get? layers'.flatten key) :
    ofLayers layers = ofLayers layers' := by
  have hfield (key : String) (hkey : key ∈ keys) {α : Type}
      (convert : RawValue → Except (Unfit × Need) α) (default : α) :
      field layers key convert default = field layers' key convert default := by
    simp only [field, h key hkey]
  simp only [ofLayers, hfield "entry" (by simp [keys]), hfield "require_entry" (by simp [keys]),
    hfield "max_frames" (by simp [keys]), hfield "version" (by simp [keys]),
    hfield "log_level" (by simp [keys])]

theorem fault?_eq_none_iff (s : Settings) :
    s.fault? = none ↔ Text.isAllBlank s.entry = false ∧ 1 ≤ s.maxFrames := by
  unfold fault?
  cases Text.isAllBlank s.entry with
  | true => simp
  | false =>
    rw [Nat.one_le_iff_ne_zero]
    simp

end Settings

-- -----------------------------------------------------------------------
-- Settings of requests
-- -----------------------------------------------------------------------

namespace Overrides

/-- The value that a request itself gives to a setting. -/
def value? (o : Overrides) (key : String) : Option RawValue :=
  if key = "entry" then o.entry.map .text
  else if key = "require_entry" then o.requireEntry.map .bool
  else if key = "max_frames" then o.maxFrames.map fun n => .int (signed n)
  else if key = "version" then o.version.map .text
  else if key = "log_level" then o.logLevel.map .text
  else none

/-- The part of the layer that one of the settings asked for makes up. -/
theorem value?_part {α : Type} (name : String) {f : α → RawValue}
    (hf : ∀ a, f a ≠ .table true) (x : Option α) (key : String) :
    Layer.value? ((x.map fun a => (name, f a)).toList.map fun (name, value) =>
      { key := { name }, given := { value } }) key = if key = name then x.map f else none := by
  cases x with
  | none => simp [Layer.value?]
  | some a =>
    have hvalue :
        Assignment.value? { key := { name }, given := { value := f a } } = some (f a) := by
      unfold Assignment.value?
      split <;> simp_all
    by_cases hkey : key = name
    · simp [Layer.value?, hvalue, hkey]
    · simp [Layer.value?, hkey, Ne.symm hkey]

theorem value?_layer (o : Overrides) : o.layer.value? = o.value? := by
  funext key
  simp only [layer, List.map_append, Layer.value?_append,
    value?_part _ (f := RawValue.text) (by simp), value?_part _ (f := RawValue.bool) (by simp),
    value?_part _ (f := fun n => RawValue.int (signed n)) (by simp)]
  unfold value?
  repeat' split
  all_goals simp_all

end Overrides

namespace SettingsRequest

variable {r r' : SettingsRequest}

/-- The value that a request comes to for a setting, where `file` is the layer of its
configuration file: that of the request itself, else that of a variable, else that of the
file. -/
def value? (r : SettingsRequest) (file : Layer) (key : String) : Option RawValue :=
  (r.overrides.value? key).or ((r.environmentLayer.value? key).or (file.value? key))

theorem value?_flatten (r : SettingsRequest) (file : Layer) :
    Layer.value? [file, r.environmentLayer, r.overrides.layer].flatten = r.value? file := by
  funext key
  simp only [List.flatten_cons, List.flatten_nil, List.append_nil, Layer.value?_append, value?,
    Overrides.value?_layer, Option.or_assoc]

theorem parseFile_congr (h : r.formats = r'.formats) (format : FileFormat) (path text : String) :
    r.parseFile format path text = r'.parseFile format path text := by
  simp only [parseFile, h]

/-- Which file a name stands for depends on what stands at the paths that are tried. -/
theorem locate?_congr (hformats : r.formats = r'.formats) {name : String}
    (h : ∀ place ∈ (r.formats.candidates name).map Prod.fst,
      r.folder.entry place = r'.folder.entry place) : r.locate? name = r'.locate? name := by
  unfold locate?
  rw [← hformats]
  refine List.find?_congr fun found hfound => ?_
  simp only [Folder.isFile, h found.1 (List.mem_map_of_mem hfound)]

theorem mem_of_locate? {name : String} {found : String × FileFormat}
    (h : r.locate? name = some found) : found.1 ∈ (r.formats.candidates name).map Prod.fst :=
  List.mem_map_of_mem (List.mem_of_find?_eq_some h)

theorem readFile_congr (hformats : r.formats = r'.formats) {found : Option (String × FileFormat)}
    (h : ∀ file ∈ found, r.folder.entry file.1 = r'.folder.entry file.1) :
    r.readFile found = r'.readFile found := by
  cases found with
  | none => rfl
  | some file =>
    simp only [readFile, Folder.read, Folder.readBytes, h file rfl, parseFile_congr hformats]

/-- The configuration file depends on its place and on what stands there. -/
theorem fileLayer_congr (hformats : r.formats = r'.formats) (hpath : r.namedPath = r'.namedPath)
    (hplaces : ∀ place ∈ places r.formats r.namedPath,
      r.folder.entry place = r'.folder.entry place) :
    r.fileLayer = r'.fileLayer := by
  unfold fileLayer
  rw [← hpath]
  cases hnamed : r.namedPath with
  | none =>
    rw [hnamed, places, List.forall_mem_cons] at hplaces
    obtain ⟨hname, hcandidates⟩ := hplaces
    simp only [Folder.isFile, hname, ← locate?_congr hformats hcandidates]
    cases hfound : r.locate? defaultName with
    | none => rfl
    | some found =>
      have hentry := hcandidates found.1 (mem_of_locate? hfound)
      simp only [Folder.read, Folder.readBytes, hentry, parseFile_congr hformats]
  | some path =>
    rw [hnamed, places, List.forall_mem_cons] at hplaces
    obtain ⟨hentry, hcandidates⟩ := hplaces
    have hfile : r.readFile ((FileFormat.ofPath? path).map (path, ·)) =
        r'.readFile ((FileFormat.ofPath? path).map (path, ·)) :=
      readFile_congr hformats (by simp [hentry])
    have hfolder : r.readFile ((besideFolder? path).bind r.locate?) =
        r'.readFile ((besideFolder? path).bind r'.locate?) := by
      cases hbeside : besideFolder? path with
      | none => rfl
      | some name =>
        rw [hbeside] at hcandidates
        rw [Option.bind_some, Option.bind_some, ← locate?_congr hformats hcandidates]
        exact readFile_congr hformats fun file hfile =>
          hcandidates file.1 (mem_of_locate? hfile)
    simp only [hentry, hfile, hfolder]

end SettingsRequest

namespace Settings

variable {r r' : SettingsRequest} {s : Settings} {file file' : Layer}

theorem build_eq_ok_iff_ofLayers : build r = .ok s ↔
    ∃ file, r.fileLayer = .ok file ∧
      ofLayers [file, r.environmentLayer, r.overrides.layer] = .ok s ∧ s.fault? = none := by
  simp only [build, SettingsRequest.layers, Except.bind_eq_ok_iff]
  constructor
  · rintro ⟨_, ⟨file, hfile, ⟨⟩⟩, t, hlayers, hbuilt⟩
    cases hfault : t.fault? with
    | some e =>
      rw [hfault] at hbuilt
      cases hbuilt
    | none =>
      rw [hfault] at hbuilt
      cases hbuilt
      exact ⟨file, hfile, hlayers, hfault⟩
  · rintro ⟨file, hfile, hlayers, hfault⟩
    refine ⟨_, ⟨file, hfile, rfl⟩, s, hlayers, ?_⟩
    rw [hfault]

/-- A request leads to the settings that are read off the values it comes to, if these can be
used. -/
theorem build_eq_ok_iff : build r = .ok s ↔
    ∃ file, r.fileLayer = .ok file ∧ s.ReadOff (r.value? file) ∧
      Text.isAllBlank s.entry = false ∧ 1 ≤ s.maxFrames := by
  simp only [build_eq_ok_iff_ofLayers, ofLayers_eq_ok_iff, SettingsRequest.value?_flatten,
    fault?_eq_none_iff]

/-- Requests with the same configuration file lead to the same settings or the same error, if
they and their variables say the same of each key. -/
theorem build_congr (hfile : r.fileLayer = r'.fileLayer) (hoverrides : r.overrides = r'.overrides)
    (henvironment : ∀ key ∈ keys, r.environmentLayer.filter (·.key.name == key) =
      r'.environmentLayer.filter (·.key.name == key)) : build r = build r' := by
  simp only [build, SettingsRequest.layers, hfile, hoverrides]
  cases r'.fileLayer with
  | error e => rfl
  | ok file =>
    have hlayers : ofLayers [file, r.environmentLayer, r'.overrides.layer] =
        ofLayers [file, r'.environmentLayer, r'.overrides.layer] := by
      refine ofLayers_congr fun key hkey => Layer.get?_congr ?_
      simp only [List.flatten_cons, List.filter_append, henvironment key hkey]
    simp only [bind, Except.bind, pure, Except.pure, hlayers]

end Settings

end Wordstack
