-- SUMMARY: Carrying out a command in a folder and an environment.
import Wordstack.Command
import Wordstack.Program.Document
import Wordstack.Settings.Layers

/-!
# Carrying out commands

Settings are made before anything else. What was printed before a failure stays
printed.
-/

namespace Wordstack

/-- Why a command failed. -/
inductive CommandError where
  | settings (error : SettingsError)
  | read (file : String) (error : ReadError)
  | parse (file : String) (error : Error)
  | run (file : String) (error : Error)
  /-- The settings cannot be written as a configuration file. -/
  | unwritable
deriving DecidableEq, Repr

namespace CommandError

def message : CommandError → String
  | .settings e => s!"Failed to load configuration: {e.message}"
  | .read file e => s!"Failed to read {file}: {e.message}"
  | .parse file e => s!"Failed to parse {file}: {e.message}"
  | .run file e => s!"Failed to run {file}: {e.message}"
  | .unwritable => Settings.unwritableMessage

end CommandError

/-- What a command shows. -/
inductive Shown where
  | text (s : String)
  | program (p : Program)

/-- The outcome of a command: what it shows, and why it failed if it did. -/
structure Report where
  shown : Shown
  failure : Option CommandError := none

namespace Shown

/-- The text on the screen. -/
def render : Shown → String
  | .text s => s
  | .program p => p.toJson.indented 0 ++ "\n"

end Shown

namespace CommandLine

/-- The settings that a command line asks for outright. -/
def overrides (line : CommandLine) : Overrides :=
  match line.command with
  | .run _ entry noEntry maxFrames =>
    { entry, requireEntry := if noEntry then some false else none, maxFrames,
      logLevel := line.logLevel }
  | _ => { logLevel := line.logLevel }

/-- Reads and parses a file. -/
def load (folder : Folder) (version file : String) : Except CommandError Program :=
  match folder.read file with
  | .error e => .error (.read file e)
  | .ok source =>
    match Program.ofSource source version with
    | .error e => .error (.parse file e)
    | .ok p => .ok p

/-- Runs files one after the other up to the first failure; `out` is what has been
printed before. -/
def runFiles (folder : Folder) (options : RunOptions) (fuel : Nat) (out : String) :
    List String → Option Report
  | [] => some { shown := .text out }
  | file :: files =>
    match load folder options.version file with
    | .error e => some { shown := .text out, failure := some e }
    | .ok p =>
      match p.run options Sink.memory out fuel with
      | none => none
      | some { out, result := .error e } =>
        some { shown := .text out, failure := some (.run file e) }
      | some { out, result := .ok _ } => runFiles folder options fuel out files

/-- What the settings of a command are made from. -/
def request (line : CommandLine) (folder : Folder) (environment : Environment)
    (formats : Formats) : SettingsRequest :=
  { folder, environment, path := line.config, overrides := line.overrides, formats }

/-- Carries out a command. Every function that runs may take `fuel` steps. -/
def execute (line : CommandLine) (folder : Folder) (environment : Environment) (fuel : Nat)
    (formats : Formats := {}) : Option Report :=
  match Settings.build (line.request folder environment formats) with
  | .error e => some { shown := .text "", failure := some (.settings e) }
  | .ok settings =>
    match line.command with
    | .run files _ _ _ => runFiles folder settings.runOptions fuel "" files
    | .parse file =>
      match load folder settings.version file with
      | .error e => some { shown := .text "", failure := some e }
      | .ok p => some { shown := .program p }
    | .config =>
      match settings.toToml? with
      | some text => some { shown := .text text }
      | none => some { shown := .text "", failure := some .unwritable }

end CommandLine

end Wordstack
