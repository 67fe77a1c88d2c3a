-- SUMMARY: The settings of the interpreter, and what is wrong with ones that cannot be used.
import Wordstack.Machine.Run
import Wordstack.Settings.Value
import Wordstack.Text.Quoted
import Wordstack.Toml.Writer

/-!
# Settings

Five settings, each with a default. Settings can be used if the entry function has
a name and at least one frame may be live.
-/

namespace Wordstack

structure Settings where
  /-- The function that runs after the top-level words. -/
  entry : String := defaultEntry
  /-- Whether that function has to exist. -/
  requireEntry : Bool := true
  /-- How many frames may be live at once. -/
  maxFrames : Nat := 1000000
  /-- What a program is told as its version. -/
  version : String := defaultVersion
  /-- Which messages are logged. -/
  logLevel : String := "warn"
deriving DecidableEq, Repr

/-- A source of values that messages tell apart. -/
inductive Origin where
  | file (name : String)
  | environment
deriving DecidableEq, Repr

/-- Why there are no settings. -/
inductive SettingsError where
  | fileNotFound (path : String)
  | unreadable
  | unfit (found : Unfit) (need : Need) (key : String) (origin : Option Origin)
  | blankEntry
  | noFrames
deriving DecidableEq, Repr

namespace Unfit

def describe : Unfit → String
  | .null => "unit value"
  | .negative i => s!"64-bit integer `{i}`"
  | .text s => s!"string {Text.quoted s}"
  | .list => "sequence"
  | .table => "map"

end Unfit

namespace Need

def describe : Need → String
  | .boolean => "a boolean"
  | .text => "a string"
  | .integer => "an integer"
  | .unsigned => "an unsigned 64 bit or less integer"

end Need

namespace Origin

def describe : Origin → String
  | .file name => s!" in {name}"
  | .environment => " in the environment"

end Origin

namespace SettingsError

def message : SettingsError → String
  | .fileNotFound path => s!"Config file not found: {path}"
  | .unreadable => "Failed to read configuration sources"
  | .unfit found need key origin =>
    s!"Invalid configuration: invalid type: {found.describe}, expected {need.describe} "
      ++ s!"for key `{key}`" ++ (origin.map Origin.describe).getD ""
  | .blankEntry => "entry must not be empty"
  | .noFrames => "max_frames must be at least 1"

end SettingsError

namespace Settings

/-- What keeps settings from being used, if anything does. -/
def fault? (s : Settings) : Option SettingsError :=
  if Text.isAllBlank s.entry then some .blankEntry
  else if s.maxFrames = 0 then some .noFrames
  else none

def runOptions (s : Settings) : RunOptions where
  entry := s.entry
  requireEntry := s.requireEntry
  maxFrames := s.maxFrames
  version := s.version

/-- What is said when the settings cannot be written as a configuration file. -/
def unwritableMessage : String := "out-of-range value for u64 type"

/-- The settings as a configuration file, if its integers can hold the number of
frames. -/
def toToml? (s : Settings) : Option String :=
  let flag := if s.requireEntry then "true" else "false"
  if Int64.maxValue.toInt < s.maxFrames then none
  else some <|
    s!"entry = {Toml.quote s.entry}\n"
      ++ s!"require_entry = {flag}\n"
      ++ s!"max_frames = {s.maxFrames}\n"
      ++ s!"version = {Toml.quote s.version}\n"
      ++ s!"log_level = {Toml.quote s.logLevel}\n"

end Settings

end Wordstack
