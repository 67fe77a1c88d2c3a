-- SUMMARY: One step of a machine: the next token of the innermost frame.
import Wordstack.Machine
import Wordstack.Operation

/-!
# Steps

A step runs one token of the innermost frame, or ends that frame if it has run all
of its tokens. Calls and branches start frames instead of nesting, so a run is a
flat sequence of steps. A step that fails leaves a machine behind as well.
-/

namespace Wordstack.Machine

variable {σ : Type}

/-- Applies an operator in the frame `f` at an index. -/
def operate (ctx : Context σ) (m : Machine σ) (index : Nat) (f : Frame) (op : Operator) :
    Machine σ × Signal :=
  match op.apply f.stack with
  | .next stack => (m.setStack index stack, .running)
  | .fail e stack => (m.setStack index stack, .failed e)
  | .ret value stack => ((m.setStack index stack).deliver index value, .running)
  | .print line stack =>
    let (out, refusal) := ctx.sink.write m.out line
    let m := { m.setStack index stack with out }
    match refusal with
    | none => (m, .running)
    | some reason => (m, .failed (.writeFailed reason))

/-- The value of a name in the block of the function itself or else of its caller,
if either binds it. -/
def lookup (program : Program) (f : Frame) (name : String) : Except Error (Option Token) := do
  let own ← program.block f.func.name
  match own[name]? with
  | some value => return some value
  | none =>
    let outer ← program.block f.callerBlock
    return outer[name]?

/-- Runs an identifier: a function of that name is called, else a value bound to it
is pushed, else nothing happens. -/
def resolve (ctx : Context σ) (m : Machine σ) (index : Nat) (f : Frame) (name : String) :
    Machine σ × Signal :=
  match ctx.program.functions[name]? with
  | some d => m.call ctx d index
  | none =>
    match lookup ctx.program f name with
    | .ok (some value) => (m.setStack index (value :: f.stack), .running)
    | .ok none => (m, .running)
    | .error e => (m, .failed e)

/-- Runs the `if` or `iff` at which the frame `f` stands: one side of it runs in a
frame of its own, and the frame goes on after the `end`. -/
def runIf (ctx : Context σ) (m : Machine σ) (index : Nat) (f : Frame) (keyword : Keyword) :
    Machine σ × Signal :=
  match f.func.jumps[f.pc]? with
  | some (.branch elseAt endAt) =>
    match f.stack with
    | [] => (m, .failed (.noCondition f.func.name keyword))
    | condition :: stack =>
      let m := m.modify index ({ · with stack, pc := endAt + 1 })
      if condition = .bool true then m.branch ctx index (f.pc + 1) (elseAt.getD endAt)
      else
        match elseAt with
        | some elseAt => m.branch ctx index (elseAt + 1) endAt
        | none => (m, .running)
  | _ => (m, .failed (.missingEnd f.func.name))

/-- Runs the `do` at which the frame `f` stands: goes on into the loop's body, or
leaves the loop. -/
def runDo (m : Machine σ) (index : Nat) (f : Frame) : Machine σ × Signal :=
  match f.func.jumps[f.pc]? with
  | some (.exit endAt) =>
    match f.stack with
    | [] => (m, .failed (.noCondition f.func.name .do_))
    | condition :: stack =>
      if condition = .bool true then (m.setStack index stack, .running)
      else (m.modify index ({ · with stack, pc := endAt + 1 }), .running)
  | _ => (m, .failed (.unexpectedKeyword f.func.name .do_))

/-- Runs the `end` at which the frame `f` stands: that of a loop goes back to its
condition. -/
def runEnd (m : Machine σ) (index : Nat) (f : Frame) : Machine σ :=
  match f.func.jumps[f.pc]? with
  | some (.back whileAt) => m.modify index ({ · with pc := whileAt + 1 })
  | _ => m

/-- Runs a token in the frame at an index. The frame has already moved on; `f` is
what it was when it still stood at the token. -/
def execute (ctx : Context σ) (m : Machine σ) (index : Nat) (f : Frame) (token : Token) :
    Machine σ × Signal :=
  match token with
  | .op op => m.operate ctx index f op
  | .ident name => m.resolve ctx index f name
  | .keyword .if_ => m.runIf ctx index f .if_
  | .keyword .iff => m.runIf ctx index f .iff
  | .keyword .do_ => m.runDo index f
  | .keyword .end_ => (m.runEnd index f, .running)
  | .keyword .while_ | .keyword .else_ => (m, .running)
  | value => (m.setStack index (value :: f.stack), .running)

/-- Takes one step. -/
def step (ctx : Context σ) (m : Machine σ) : Machine σ × Signal :=
  match m.frames.back? with
  | none => (m, .done)
  | some f =>
    match f.next? with
    | none => (m.finish, .running)
    | some token =>
      let index := m.frames.size - 1
      (m.modify index ({ · with pc := f.pc + 1 })).execute ctx index f token

/-- Takes a number of steps, but none after a failure. -/
def steps (ctx : Context σ) : Nat → Machine σ → Machine σ × Signal
  | 0, m => (m, .running)
  | 1, m => m.step ctx
  | n + 1, m =>
    match m.step ctx with
    | (m, .failed e) => (m, .failed e)
    | (m, _) => steps ctx n m

end Wordstack.Machine
