-- SUMMARY: The command line: which command, with which files and options.
import Wordstack.Settings.Value

/-!
# The command line

A command line names a command and gives it files and options. Two options may
stand before the command as well as after it. An option's value is attached with an
equals sign or follows as the next argument.

A value that follows is checked only when the next argument has been recognized, or
at the end, so an argument that is unknown is reported before a bad value right in
front of it.
-/

namespace Wordstack

/-- What is to be done. -/
inductive Command where
  /-- Runs files one after the other. -/
  | run (files : List String) (entry : Option String) (noEntry : Bool) (maxFrames : Option Nat)
  /-- Shows the program that a file holds. -/
  | parse (file : String)
  /-- Shows the settings. -/
  | config
deriving DecidableEq, Repr

/-- A command with the options that all commands share. -/
structure CommandLine where
  config : Option String
  logLevel : Option String
  command : Command
deriving DecidableEq, Repr

/-- Why a command line is not one. -/
inductive UsageError where
  /-- Nothing was given, so help is due. -/
  | noArguments
  /-- Help was asked for. -/
  | help
  | unknownCommand
  | missingCommand
  | missingArgument
  | unknownArgument
  | missingValue
  | surplusValue
  | invalidNumber
  | repeated
deriving DecidableEq, Repr

/-- The names of the commands. -/
inductive CommandName where
  | run | parse | config
deriving DecidableEq, Repr

/-- Where a value of the command line belongs. -/
inductive Slot where
  | config | logLevel | entry | maxFrames | file
deriving DecidableEq, Repr

/-- What an argument with two hyphens means. -/
inductive Flag where
  | option (slot : Slot)
  | noEntry
  | help
deriving DecidableEq, Repr

def CommandName.ofWord? : String → Option CommandName
  | "run" => some .run
  | "parse" => some .parse
  | "config" => some .config
  | _ => none

/-- The flag of a name. Some flags belong to one command only. -/
def Flag.ofName? (command : Option CommandName) : String → Option Flag
  | "config" => some (.option .config)
  | "log-level" => some (.option .logLevel)
  | "help" => some .help
  | "entry" => if command = some .run then some (.option .entry) else none
  | "max-frames" => if command = some .run then some (.option .maxFrames) else none
  | "no-entry" => if command = some .run then some .noEntry else none
  | _ => none

/-- The arguments of one level, before a command or after it, as far as they have
been taken in. -/
structure Arguments where
  config : Option String := none
  logLevel : Option String := none
  entry : Option String := none
  maxFrames : Option Nat := none
  noEntry : Bool := false
  files : List String := []
  /-- Values that have not been checked yet, and where they belong. -/
  pending : Option (Slot × List String) := none
  /-- Whether the pending option still lacks its value. -/
  awaiting : Bool := false
  /-- Whether everything that comes is a file. -/
  onlyFiles : Bool := false

namespace Arguments

/-- Sets a value that must not have been set before. -/
def setOnce {α : Type} (old : Option α) (value : Except UsageError α) :
    Except UsageError (Option α) :=
  if old.isSome then .error .repeated else value.map some

/-- A path, which must not be empty. -/
def path (s : String) : Except UsageError String :=
  if s = "" then .error .missingValue else .ok s

def number (s : String) : Except UsageError Nat :=
  match RawValue.count? s with
  | some n => .ok n
  | none => .error .invalidNumber

/-- Stores values where they belong. An option takes exactly one. -/
def store (a : Arguments) (slot : Slot) (values : List String) : Except UsageError Arguments := do
  match slot, values with
  | .file, values => return { a with files := a.files ++ (← values.mapM path) }
  | _, [] => .error .missingValue
  | .config, v :: _ => return { a with config := ← setOnce a.config (path v) }
  | .logLevel, v :: _ => return { a with logLevel := ← setOnce a.logLevel (.ok v) }
  | .entry, v :: _ => return { a with entry := ← setOnce a.entry (.ok v) }
  | .maxFrames, v :: _ => return { a with maxFrames := ← setOnce a.maxFrames (number v) }

/-- Checks and stores the pending values. -/
def resolve (a : Arguments) : Except UsageError Arguments :=
  match a.pending with
  | none => .ok a
  | some (slot, values) => { a with pending := none, awaiting := false }.store slot values

/-- Takes in a flag, with the value attached to it if there is one. -/
def pushFlag (a : Arguments) (flag : Flag) (attached : Option String) :
    Except UsageError Arguments := do
  match flag, attached with
  | .option slot, some v => (← a.resolve).store slot [v]
  | .option slot, none => return { ← a.resolve with pending := some (slot, []), awaiting := true }
  | _, some _ => .error .surplusValue
  | .help, none =>
    let _ ← a.resolve
    .error .help
  | .noEntry, none =>
    let a ← a.resolve
    if a.noEntry then .error .repeated else return { a with noEntry := true }

/-- Takes in a file. A command takes as many as it has use for. -/
def pushFile (a : Arguments) (command : CommandName) (file : String) :
    Except UsageError Arguments := do
  match command, a.pending with
  | .run, some (.file, files) => return { a with pending := some (.file, files ++ [file]) }
  | .run, _ => return { ← a.resolve with pending := some (.file, [file]) }
  | .parse, some (.file, _) => .error .unknownArgument
  | .parse, _ =>
    if a.files.isEmpty then return { ← a.resolve with pending := some (.file, [file]) }
    else .error .unknownArgument
  | .config, _ => .error .unknownArgument

/-- The kinds of arguments that start with a hyphen. -/
inductive Shape where
  /-- Two hyphens alone: only files follow. -/
  | separator
  | long (name : String) (attached : Option String)
  | short (letter : Char)
  /-- Anything else, a hyphen alone included. -/
  | word
deriving DecidableEq, Repr

def shape (arg : String) : Shape :=
  match arg.toList with
  | ['-', '-'] => .separator
  | '-' :: '-' :: cs =>
    let name := String.ofList (cs.takeWhile (· != '='))
    match cs.dropWhile (· != '=') with
    | _ :: value => .long name (some (String.ofList value))
    | [] => .long name none
  | '-' :: c :: _ => .short c
  | _ => .word

/-- Takes in an argument with a hyphen in front. -/
def pushHyphened (a : Arguments) (command : Option CommandName) :
    Shape → Except UsageError Arguments
  | .long name attached =>
    match Flag.ofName? command name with
    | some flag => a.pushFlag flag attached
    | none => .error .unknownArgument
  | .short c => if c == 'h' then a.pushFlag .help none else .error .unknownArgument
  | .separator | .word => .ok { a with onlyFiles := true }

/-- Whether an argument is a word: a value, a file or a command. -/
def takesWord (a : Arguments) (arg : String) : Bool := a.onlyFiles || shape arg = .word

/-- Gives the pending option its value. -/
def pushValue (a : Arguments) (value : String) : Arguments :=
  { a with pending := a.pending.map fun (slot, _) => (slot, [value]), awaiting := false }

/-- Takes in the arguments after a command. -/
def pushAll (command : CommandName) (a : Arguments) : List String → Except UsageError Arguments
  | [] => a.resolve
  | arg :: rest => do
    let a ←
      if a.takesWord arg then
        if a.awaiting && !a.onlyFiles then pure (a.pushValue arg) else a.pushFile command arg
      else a.pushHyphened (some command) (shape arg)
    pushAll command a rest

end Arguments

namespace CommandLine

/-- The command that its arguments make up. -/
def commandOf (name : CommandName) (a : Arguments) : Except UsageError Command :=
  match name, a.files with
  | .run, [] | .parse, [] => .error .missingArgument
  | .run, files => .ok (.run files a.entry a.noEntry a.maxFrames)
  | .parse, file :: _ => .ok (.parse file)
  | .config, _ => .ok .config

/-- What a request for help with commands comes to. -/
def helpOn : List String → UsageError
  | [] => .help
  | [word] => if word = "help" || (CommandName.ofWord? word).isSome then .help else .unknownCommand
  | _ => .unknownCommand

/-- What comes of a command line without a command. -/
def withoutCommand (a : Arguments) : Except UsageError CommandLine := do
  let a ← a.resolve
  if a.config.isNone && a.logLevel.isNone then .error .noArguments else .error .missingCommand

/-- The rest of a command line after the name of the command. Options before the
command count unless they are given again. -/
def afterName (before : Arguments) (name : CommandName) (args : List String) :
    Except UsageError CommandLine := do
  let inner ← Arguments.pushAll name {} args
  let command ← commandOf name inner
  let before ← before.resolve
  return {
    config := inner.config <|> before.config
    logLevel := inner.logLevel <|> before.logLevel
    command }

/-- Reads the arguments up to the command, and the command with the rest. -/
def parseFrom (a : Arguments) : List String → Except UsageError CommandLine
  | [] => withoutCommand a
  | arg :: rest => do
    if a.takesWord arg then
      if a.onlyFiles then
        if arg = "help" || (CommandName.ofWord? arg).isSome then .error .unknownArgument
        else .error .unknownCommand
      else if a.awaiting then parseFrom (a.pushValue arg) rest
      else if arg = "help" then .error (helpOn rest)
      else
        match CommandName.ofWord? arg with
        | some name => afterName a name rest
        | none => .error .unknownCommand
    else parseFrom (← a.pushHyphened none (Arguments.shape arg)) rest

/-- Reads the arguments of a command line, without the program's name. -/
def parse (args : List String) : Except UsageError CommandLine := parseFrom {} args

end CommandLine

end Wordstack
