-- SUMMARY: The state of a run: live frames with their stacks, the root stack and the sink's state.
import Wordstack.Binding
import Wordstack.Sink

/-!
# Frames and machines

Each live call and each taken branch has a frame. A call works on a fresh stack
that holds its arguments; a branch works on a copy of its parent's stack and is
otherwise like its parent. Frames lie in an array, the innermost one last.

The root stack belongs to no frame. It is what the top-level calls take their
arguments from and leave their results on.
-/

namespace Wordstack

inductive FrameKind where
  /-- A function that was called. -/
  | call
  /-- A side of an `if` that was taken. -/
  | branch
deriving DecidableEq, Repr

/-- Where the values that a frame returns go. -/
inductive ReturnTo where
  /-- The frame's own stack. -/
  | own
  /-- The root stack. -/
  | root
  /-- The stack of the frame with this index. -/
  | frame (index : Nat)
deriving DecidableEq, Repr

/-- A live call or branch, which runs the offsets from `pc` up to `stop` of a
body. -/
structure Frame where
  kind : FrameKind
  func : Definition
  pc : Nat
  stop : Nat
  stack : Stack
  returnTo : ReturnTo
  /-- The function whose block is searched for a name after the frame's own. -/
  callerBlock : String
deriving DecidableEq

/-- The state of a run. -/
structure Machine (σ : Type) where
  frames : Array Frame
  root : Stack
  out : σ

/-- What stays the same throughout a run. -/
structure Context (σ : Type) where
  program : Program
  maxFrames : Nat
  sink : Sink σ

/-- How an action on a machine ended. -/
inductive Signal where
  | running
  /-- No frame is left to run. -/
  | done
  | failed (error : Error)
deriving DecidableEq, Repr

namespace Frame

/-- The token to run next, unless the frame has come to its end. -/
def next? (f : Frame) : Option Token :=
  if f.pc < f.stop then f.func.body[f.pc]? else none

/-- Where a branch of the frame at `index` returns values to: the place where that
frame does, counted from outside. -/
def branchReturn (f : Frame) (index : Nat) : ReturnTo :=
  match f.returnTo with
  | .own => .frame index
  | other => other

end Frame

namespace Machine

variable {σ : Type}

/-- The machine before anything runs. -/
def init (out : σ) : Machine σ := { frames := #[], root := [], out }

/-- Changes the frame at an index. -/
def modify (m : Machine σ) (index : Nat) (f : Frame → Frame) : Machine σ :=
  { m with frames := m.frames.modify index f }

/-- Replaces the stack of the frame at an index. -/
def setStack (m : Machine σ) (index : Nat) (stack : Stack) : Machine σ :=
  m.modify index ({ · with stack })

/-- Starts a frame, unless as many as allowed are live. -/
def push (m : Machine σ) (limit : Nat) (frame : Frame) : Machine σ × Signal :=
  if m.frames.size < limit then ({ m with frames := m.frames.push frame }, .running)
  else (m, .failed (.frameLimit limit))

/-- Ends the innermost frame. A top-level call leaves its stack on the root stack:
in its place if it was its own caller, on top of it otherwise. Every other stack
is dropped. -/
def finish (m : Machine σ) : Machine σ :=
  match m.frames.back? with
  | none => m
  | some f =>
    let m := { m with frames := m.frames.pop }
    match f.kind, f.returnTo with
    | .call, .own => { m with root := f.stack }
    | .call, .root => { m with root := f.stack ++ m.root }
    | _, _ => m

/-- Hands a value to where the frame at index `source` returns values to. -/
def deliver (m : Machine σ) (source : Nat) (value : Token) : Machine σ :=
  match m.frames[source]? with
  | none => m
  | some f =>
    match f.returnTo with
    | .own => m.modify source fun f => { f with stack := value :: f.stack }
    | .root => { m with root := value :: m.root }
    | .frame target => m.modify target fun f => { f with stack := value :: f.stack }

/-- Starts a side of an `if` in the frame at index `parent`, on a copy of its
stack. -/
def branch (ctx : Context σ) (m : Machine σ) (parent start stop : Nat) : Machine σ × Signal :=
  match m.frames[parent]? with
  | none => (m, .running)
  | some f =>
    m.push ctx.maxFrames
      { f with kind := .branch, pc := start, stop, returnTo := f.branchReturn parent }

/-- The first of some functions that has no block. -/
def missingBlock? (program : Program) (names : List String) : Option Error :=
  (names.find? fun name => !program.blocks.contains name).map .undefinedBlock

/-- The frame of a call. -/
def callFrame (d : Definition) (args : Stack) (returnTo : ReturnTo) (callerBlock : String) :
    Frame :=
  { kind := .call, func := d, pc := 0, stop := d.body.size, stack := args, returnTo, callerBlock }

/-- Calls a function from the frame at index `caller`, which its arguments are
taken from. -/
def call (ctx : Context σ) (m : Machine σ) (d : Definition) (caller : Nat) :
    Machine σ × Signal :=
  match m.frames[caller]? with
  | none => (m, .running)
  | some f =>
    match missingBlock? ctx.program [d.name, f.func.name] with
    | some e => (m, .failed e)
    | none =>
      match d.bind f.func.name f.stack with
      | .failed e rest => (m.setStack caller rest, .failed e)
      | .bound args rest =>
        (m.setStack caller rest).push ctx.maxFrames
          (callFrame d args (.frame caller) f.func.name)

/-- Calls a registered function at top level, with arguments from the root stack. -/
def invoke (ctx : Context σ) (m : Machine σ) (name callerBlock : String) (returnTo : ReturnTo) :
    Machine σ × Signal :=
  match ctx.program.functions[name]? with
  | none => (m, .failed (.undefinedFunction name))
  | some d =>
    match missingBlock? ctx.program [d.name, callerBlock] with
    | some e => (m, .failed e)
    | none =>
      match d.bind callerBlock m.root with
      | .failed e rest => ({ m with root := rest }, .failed e)
      | .bound args rest =>
        { m with root := rest }.push ctx.maxFrames (callFrame d args returnTo callerBlock)

end Machine

end Wordstack
