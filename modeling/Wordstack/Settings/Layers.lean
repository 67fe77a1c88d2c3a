-- SUMMARY: Settings from layers: defaults, a configuration file, the environment and a request, each over those before.
import Wordstack.Folder
import Wordstack.Settings
import Wordstack.Settings.Environment.File
import Wordstack.Settings.Format
import Wordstack.Settings.Key

/-!
# Layers of settings

Every setting comes from the highest layer that gives it: the request itself, the
environment, the configuration file, and last the defaults. Values of lower layers
are not looked at, except that a step into a list goes on with the list that is there.
-/

namespace Wordstack

/-- Settings that are asked for outright. -/
structure Overrides where
  entry : Option String := none
  requireEntry : Option Bool := none
  maxFrames : Option Nat := none
  version : Option String := none
  logLevel : Option String := none
deriving DecidableEq, Repr

/-- What settings are made from. -/
structure SettingsRequest where
  folder : Folder := .ofFiles []
  environment : Environment := []
  /-- Whether variables count, those of a file among them. -/
  useEnvironment : Bool := true
  /-- The configuration file to read. -/
  path : Option String := none
  overrides : Overrides := {}
  formats : Formats := {}

/-- The value of a setting with its origin, unless it comes from the request or was
made up. -/
structure Given where
  value : RawValue
  origin : Option Origin := none
deriving DecidableEq, Repr

/-- A value for a setting or for a part of it. -/
structure Assignment where
  key : Key
  given : Given
deriving DecidableEq, Repr

/-- The assignments of one source. -/
abbrev Layer := List Assignment

namespace Assignment

/-- Assigns a value to a key. Keys may be written in any case. -/
def ofText (origin : Option Origin) (key : String) (value : RawValue) : Assignment where
  key := Key.ofText (Text.lowercase key)
  given := { value, origin }

/-- What becomes of a setting. An empty table adds nothing to it, and a step makes it a
table or a list. -/
def apply (before : Option Given) (a : Assignment) : Option Given :=
  match a.key.step, a.given.value with
  | none, .table true => before
  | none, .table false => some { value := .table false }
  | none, _ => some a.given
  | some .field, _ => some { value := .table false }
  | some .item, _ =>
    match before with
    | some { value := .list, origin } => some { value := .list, origin }
    | _ => some { value := .list }

end Assignment

namespace Layer

/-- What assignments make of a setting. -/
def get? (layer : Layer) (name : String) : Option Given :=
  (layer.filter (·.key.name == name)).foldl Assignment.apply none

end Layer

namespace Overrides

/-- A count in the 64 bits of an integer with a sign, where the upper half is
negative. -/
def signed (n : Nat) : Int := (UInt64.ofNat n).toInt64.toInt

def layer (o : Overrides) : Layer :=
  let values :=
    (o.entry.map fun s => ("entry", RawValue.text s)).toList
      ++ (o.requireEntry.map fun b => ("require_entry", RawValue.bool b)).toList
      ++ (o.maxFrames.map fun n => ("max_frames", RawValue.int (signed n))).toList
      ++ (o.version.map fun s => ("version", RawValue.text s)).toList
      ++ (o.logLevel.map fun s => ("log_level", RawValue.text s)).toList
  values.map fun (name, value) => { key := { name }, given := { value } }

end Overrides

namespace SettingsRequest

/-- What the file of variables offers, which is the nearest one in the working folder or
above it. -/
def offers (r : SettingsRequest) : List Environment.Offer :=
  ((r.folder.firstFile? (r.folder.upwards ".env")).map Environment.offers).getD []

/-- The variables that count. -/
def effectiveEnvironment (r : SettingsRequest) : Environment :=
  if r.useEnvironment then r.environment.acceptAll r.offers else []

/-- The configuration file that is named outright or by a variable. -/
def namedPath (r : SettingsRequest) : Option String :=
  r.path <|> r.effectiveEnvironment.get? "NUMEN_CONFIG_PATH"

/-- The name of the configuration file beside a folder, but for its ending, if the path to
the folder ends in its name. -/
def besideFolder? (path : String) : Option String :=
  match Folder.lastStep? path with
  | none | some ".." => none
  | some _ => some (Folder.normalize path)

/-- The name of the configuration file that is read if none is named. -/
def defaultName : String := "numen"

/-- The file that a name without an ending stands for. -/
def locate? (r : SettingsRequest) (name : String) : Option (String × FileFormat) :=
  (r.formats.candidates name).find? fun (path, _) => r.folder.isFile path

/-- A text without the mark that tells the order of its bytes. -/
def dropMark (text : String) : String :=
  match text.toList with
  | c :: cs => if c.toNat = 0xfeff then String.ofList cs else text
  | [] => text

/-- The layer of a configuration file. -/
def parseFile (r : SettingsRequest) (format : FileFormat) (path text : String) :
    Except SettingsError Layer :=
  match r.formats.read? format (dropMark text) with
  | none => .error .unreadable
  | some entries =>
    .ok (entries.map fun (key, value) =>
      Assignment.ofText (some (.file (Folder.normalize path))) key value)

/-- The layer of a configuration file that has to be there. -/
def readFile (r : SettingsRequest) : Option (String × FileFormat) → Except SettingsError Layer
  | none => .error .unreadable
  | some (path, format) =>
    match r.folder.read path with
    | .ok text => r.parseFile format path text
    | .error _ => .error .unreadable

/-- The layer of the configuration file. One that is named has to exist; otherwise one of
the default name is read if it is there as a text and no file of its bare name hides it. -/
def fileLayer (r : SettingsRequest) : Except SettingsError Layer :=
  match r.namedPath with
  | some path =>
    match r.folder.entry path with
    | .error _ => .error (.fileNotFound path)
    | .ok (.file _) => r.readFile ((FileFormat.ofPath? path).map (path, ·))
    | .ok .folder => r.readFile ((besideFolder? path).bind r.locate?)
  | none =>
    if r.folder.isFile defaultName then .ok []
    else
      match r.locate? defaultName with
      | none => .ok []
      | some (path, format) =>
        match r.folder.read path with
        | .ok text => r.parseFile format path text
        | .error _ => .ok []

/-- The paths at which a configuration file is looked for, if one is named and if none is. -/
def places (formats : Formats) : Option String → List String
  | some path =>
    path :: ((besideFolder? path).map fun name => (formats.candidates name).map (·.1)).getD []
  | none => defaultName :: (formats.candidates defaultName).map (·.1)

/-- The layer of the variables. -/
def environmentLayer (r : SettingsRequest) : Layer :=
  r.effectiveEnvironment.settings.map fun (key, value) =>
    Assignment.ofText (some .environment) key value

/-- The layers above the defaults, the lowest one first. -/
def layers (r : SettingsRequest) : Except SettingsError (List Layer) := do
  return [← r.fileLayer, r.environmentLayer, r.overrides.layer]

end SettingsRequest

namespace Settings

/-- The value that some layers give to a setting, made to fit by `convert`, or else the
default. -/
def field {α : Type} (layers : List Layer) (key : String)
    (convert : RawValue → Except (Unfit × Need) α) (default : α) : Except SettingsError α :=
  match Layer.get? layers.flatten key with
  | none => .ok default
  | some { value, origin } =>
    match convert value with
    | .ok a => .ok a
    | .error (found, need) => .error (.unfit found need key origin)

/-- The settings of some layers. -/
def ofLayers (layers : List Layer) : Except SettingsError Settings := do
  let defaults : Settings := {}
  return {
    entry := ← field layers "entry" RawValue.toText defaults.entry
    requireEntry := ← field layers "require_entry" RawValue.toBool defaults.requireEntry
    maxFrames := ← field layers "max_frames" RawValue.toCount defaults.maxFrames
    version := ← field layers "version" RawValue.toText defaults.version
    logLevel := ← field layers "log_level" RawValue.toText defaults.logLevel }

/-- The settings that a request leads to. -/
def build (r : SettingsRequest) : Except SettingsError Settings := do
  let settings ← ofLayers (← r.layers)
  match settings.fault? with
  | some e => .error e
  | none => .ok settings

end Settings

end Wordstack
