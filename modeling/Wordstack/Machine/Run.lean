-- SUMMARY: Whole runs: the top-level words, then the entry function, then a flush of the sink.
import Wordstack.Machine.Step
import Wordstack.Program.Source

/-!
# Runs

A program need not come to an end, so a run is given a number of steps that it may
take. `none` says that they did not suffice; any larger number gives the answer of
a number that does.
-/

namespace Wordstack

/-- How a program is to be run. -/
structure RunOptions where
  /-- The function that runs after the top-level words. -/
  entry : String := defaultEntry
  /-- Whether the entry function has to exist. -/
  requireEntry : Bool := true
  /-- How many frames may be live at once. -/
  maxFrames : Nat := 1000000
  /-- What the program is told as its version. -/
  version : String := defaultVersion
deriving DecidableEq, Repr

/-- The outcome of a run: the state of the sink, and the stack that is left or the
error that ended it. -/
structure Outcome (σ : Type) where
  out : σ
  result : Except Error Stack

namespace Machine

variable {σ : Type}

/-- Steps until no frame is left or a step fails, but at most `fuel` times. -/
def run (ctx : Context σ) : Nat → Machine σ → Option (Machine σ × Option Error)
  | 0, _ => none
  | fuel + 1, m =>
    match m.step ctx with
    | (m, .running) => run ctx fuel m
    | (m, .done) => some (m, none)
    | (m, .failed e) => some (m, some e)

/-- Calls a registered function at top level and runs until no frame is left. -/
def runFunction (ctx : Context σ) (fuel : Nat) (m : Machine σ) (name : String)
    (returnTo : ReturnTo) : Option (Machine σ × Option Error) :=
  match m.invoke ctx name globalName returnTo with
  | (m, .failed e) => some (m, some e)
  | (m, _) => m.run ctx fuel

end Machine

namespace Program

variable {σ : Type}

/-- Flushes the sink of a run that came to its end. -/
def complete (sink : Sink σ) (m : Machine σ) : Outcome σ :=
  match sink.flush m.out with
  | (out, none) => { out, result := .ok m.root }
  | (out, some reason) => { out, result := .error (.writeFailed reason) }

/-- Runs the top-level words, which are their own caller, and then the entry
function, which takes its arguments from what they left. Each of the two may take
`fuel` steps. -/
def run (p : Program) (options : RunOptions) (sink : Sink σ) (out : σ) (fuel : Nat) :
    Option (Outcome σ) :=
  let ctx : Context σ := { program := p, maxFrames := options.maxFrames, sink }
  match (Machine.init out).runFunction ctx fuel globalName .own with
  | none => none
  | some (m, some e) => some { out := m.out, result := .error e }
  | some (m, none) =>
    if p.functions.contains options.entry then
      match m.runFunction ctx fuel options.entry .root with
      | none => none
      | some (m, some e) => some { out := m.out, result := .error e }
      | some (m, none) => some (complete sink m)
    else if options.requireEntry then
      some { out := m.out, result := .error (.entryNotFound options.entry) }
    else some (complete sink m)

/-- Reads a program from its source text and runs it. -/
def runSource (source : String) (options : RunOptions) (sink : Sink σ) (out : σ) (fuel : Nat) :
    Option (Outcome σ) :=
  match ofSource source options.version with
  | .error e => some { out, result := .error e }
  | .ok p => p.run options sink out fuel

end Program

end Wordstack
