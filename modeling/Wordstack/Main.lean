-- SUMMARY: The program on the command line.
import Wordstack.Command.Run

/-!
# The command line program

Gathers the arguments, the environment and the files that the command may ask for,
and shows what comes of it.
-/

namespace Wordstack

/-- Steps that a function may take; in practice no run takes as many. -/
def unboundedFuel : Nat := Nat.pow 2 62

/-- The names of the variables that matter, for systems that do not list them. -/
def knownVariables : List String :=
  ["NUMEN_CONFIG_PATH", "NUMEN_ENTRY", "NUMEN_REQUIRE_ENTRY", "NUMEN_MAX_FRAMES",
    "NUMEN_VERSION", "NUMEN_LOG_LEVEL"]

/-- A variable as the system lists it. -/
def variableOf (cs : List Char) : Option (String × String) :=
  match cs.dropWhile (· != '=') with
  | _ :: value => some (String.ofList (cs.takeWhile (· != '=')), String.ofList value)
  | [] => none

/-- The variables of the process. -/
def readEnvironment : IO Environment := do
  try
    let listed ← IO.FS.readFile "/proc/self/environ"
    return (listed.toList.splitOn (Char.ofNat 0)).filterMap variableOf
  catch _ =>
    knownVariables.filterMapM fun name => do
      return (← IO.getEnv name).map fun value => (name, value)

/-- Whether an error has a number, which may come with either sign. -/
def isErrorCode (number code : UInt32) : Bool := code == number || code == 0 - number

/-- What a failure to open a file means. -/
def readErrorOf : IO.Error → ReadError
  | .inappropriateType _ code _ => if isErrorCode 21 code then .folder else .notFolder
  | .invalidArgument _ code _ => if isErrorCode 36 code then .nameTooLong else .missing
  | _ => .missing

/-- What a path leads to. -/
def readEntry (path : String) : IO (Except ReadError Entry) := do
  try
    return .ok (.file (← IO.FS.readBinFile path))
  catch e =>
    match readErrorOf e with
    | .folder => return .ok .folder
    | e => return .error e

/-- The working folder, in which some paths have been looked up. -/
def readFolder (depth : Nat) (paths : List String) : IO Folder := do
  let entries ← paths.mapM fun path => do return (path, ← readEntry path)
  return { Folder.ofEntries entries with depth }

/-- The files that a command reads as sources. -/
def Command.files : Command → List String
  | .run files _ _ _ => files
  | .parse file => [file]
  | .config => []

/-- How to use the program. -/
def usage : String :=
  "Usage: numen [--config FILE] [--log-level LEVEL] COMMAND\n\n"
    ++ "  run FILE... [--entry NAME] [--no-entry] [--max-frames N]\n"
    ++ "  parse FILE\n"
    ++ "  config\n"

/-- Carries out a command and says whether it succeeded. -/
def perform (line : CommandLine) : IO UInt32 := do
  let environment ← readEnvironment
  let depth := ((Folder.steps (← IO.currentDir).toString).filter (!Folder.staysInPlace ·)).length
  let upwards := Folder.upwards { Folder.ofEntries [] with depth } ".env"
  let request := line.request (← readFolder depth upwards) environment {}
  let folder ← readFolder depth
    (upwards ++ SettingsRequest.places {} request.namedPath ++ line.command.files)
  match line.execute folder environment unboundedFuel with
  | none => return 1
  | some report =>
    (← IO.getStdout).putStr report.shown.render
    match report.failure with
    | none => return 0
    | some e =>
      (← IO.getStderr).putStrLn ("Error: " ++ e.message)
      return 1

end Wordstack

open Wordstack in
def main (args : List String) : IO UInt32 := do
  match CommandLine.parse args with
  | .ok line => perform line
  | .error .help =>
    (← IO.getStdout).putStr usage
    return 0
  | .error _ =>
    (← IO.getStderr).putStr usage
    return 2
