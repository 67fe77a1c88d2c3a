-- SUMMARY: An evaluator that follows the block structure of a program: calls, branches and loops nest as they are written.
import Wordstack.Machine.Run
import Wordstack.Proofs.Code

/-!
# Evaluation

The evaluator runs a program by recursion on the blocks of its functions. It has
no offsets, no jumps and no frames; what is left of the frames is how many of them
would be live. Evaluation need not come to an end, and then it is `none`.

Stacks and lists of returned values have their last value first.
-/

namespace Wordstack

/-- How evaluation ends: with a value, or with an error and the sink's state at that
point. -/
inductive Answer (σ α : Type) where
  | done (value : α)
  | failed (error : Error) (out : σ)
deriving DecidableEq, Repr

def Answer.map {σ α β : Type} (f : α → β) : Answer σ α → Answer σ β
  | .done value => .done (f value)
  | .failed e out => .failed e out

/-- What code works on. -/
structure Local (σ : Type) where
  stack : Stack
  /-- The values handed to the caller so far. -/
  returned : Stack
  out : σ
deriving DecidableEq, Repr

/-- What a top-level call works on. -/
structure Root (σ : Type) where
  stack : Stack
  out : σ
deriving DecidableEq, Repr

/-- What a top-level call leaves. A function that is its own caller leaves its stack
in place of the root stack. Any other leaves it on top of what it returned, and that
on top of the rest of the root stack. -/
def Local.leave {σ : Type} (s : Local σ) (ownCaller : Bool) (rest : Stack) : Root σ :=
  { stack := if ownCaller then s.stack else s.stack ++ (s.returned ++ rest), out := s.out }

/-- Where code runs. -/
structure Scope where
  /-- The function that the code belongs to. -/
  function : String
  /-- The function whose block is searched for a name after that one's. -/
  caller : String
  /-- Whether returned values go to the code's own stack. -/
  ownCaller : Bool
  /-- How many calls and branches are live, with the one that runs the code. -/
  live : Nat
deriving DecidableEq, Repr

namespace Scope

/-- Inside a function that code in the scope calls. -/
def callee (sc : Scope) (d : Definition) : Scope :=
  { function := d.name, caller := sc.function, ownCaller := false, live := sc.live + 1 }

/-- Inside a branch that code in the scope takes. -/
def branch (sc : Scope) : Scope := { sc with ownCaller := false, live := sc.live + 1 }

/-- Returns values from the scope. -/
def give {σ : Type} (sc : Scope) (values : Stack) (s : Local σ) : Local σ :=
  if sc.ownCaller then { s with stack := values ++ s.stack }
  else { s with returned := values ++ s.returned }

/-- The value of a name in the block of the function itself or else of its caller. -/
def valueOf? (sc : Scope) (program : Program) (name : String) : Option Token :=
  (program.blocks[sc.function]?.bind (·[name]?)).or (program.blocks[sc.caller]?.bind (·[name]?))

end Scope

/-- What the effect of an operator comes to. -/
def Effect.answer {σ : Type} (ctx : Context σ) (sc : Scope) (s : Local σ) :
    Effect → Answer σ (Local σ)
  | .next stack => .done { s with stack }
  | .fail e _ => .failed e s.out
  | .ret value stack => .done (sc.give [value] { s with stack })
  | .print line stack =>
    match ctx.sink.write s.out line with
    | (out, none) => .done { s with stack, out }
    | (out, some reason) => .failed (.writeFailed reason) out

namespace Token

/-- The function that a token calls. -/
def called? (program : Program) : Token → Option Definition
  | .ident name => program.functions[name]?
  | _ => none

/-- What a token that calls no function does. -/
def answer {σ : Type} (ctx : Context σ) (sc : Scope) (s : Local σ) : Token → Answer σ (Local σ)
  | .op operator => (operator.apply s.stack).answer ctx sc s
  | .ident name => .done { s with stack := (sc.valueOf? ctx.program name).toList ++ s.stack }
  | value => .done { s with stack := value :: s.stack }

end Token

namespace Code

variable {σ : Type}

/-- Evaluates code.

A call runs the body of the function on its arguments alone. What the body leaves
on its stack is dropped, and what it returned goes on top of the caller's stack. A
branch runs on a copy of the stack, which is dropped as well, and what it returned
is returned by the scope. A loop runs in place. -/
def eval (ctx : Context σ) (sc : Scope) (code : Code) (s : Local σ) :
    Option (Answer σ (Local σ)) :=
  match code with
  | .done => some (.done s)
  | .plain token _ rest =>
    match token.called? ctx.program with
    | none =>
      match token.answer ctx sc s with
      | .failed e out => some (.failed e out)
      | .done s => rest |>.eval ctx sc s
    | some d =>
      match d.bind sc.function s.stack with
      | .failed e _ => some (.failed e s.out)
      | .bound args stack =>
        if sc.live < ctx.maxFrames then do
          let body ← ofTokens? d.body.toList
          match ← body |>.eval ctx (sc.callee d)
              { stack := args, returned := [], out := s.out } with
          | .failed e out => some (.failed e out)
          | .done t => rest |>.eval ctx sc { s with stack := t.returned ++ stack, out := t.out }
        else some (.failed (.frameLimit ctx.maxFrames) s.out)
  | .ifThen word yes rest =>
    match s.stack with
    | [] => some (.failed (.noCondition sc.function word.keyword) s.out)
    | condition :: stack =>
      if condition = .bool true then
        if sc.live < ctx.maxFrames then do
          match ← yes |>.eval ctx sc.branch { stack, returned := [], out := s.out } with
          | .failed e out => some (.failed e out)
          | .done t => rest |>.eval ctx sc (sc.give t.returned { s with stack, out := t.out })
        else some (.failed (.frameLimit ctx.maxFrames) s.out)
      else rest |>.eval ctx sc { s with stack }
  | .ifElse word yes no rest =>
    match s.stack with
    | [] => some (.failed (.noCondition sc.function word.keyword) s.out)
    | condition :: stack =>
      if sc.live < ctx.maxFrames then do
        let side := if condition = .bool true then yes else no
        match ← side |>.eval ctx sc.branch { stack, returned := [], out := s.out } with
        | .failed e out => some (.failed e out)
        | .done t => rest |>.eval ctx sc (sc.give t.returned { s with stack, out := t.out })
      else some (.failed (.frameLimit ctx.maxFrames) s.out)
  | .loop test body rest => do
    match ← test |>.eval ctx sc s with
    | .failed e out => some (.failed e out)
    | .done t =>
      match t.stack with
      | [] => some (.failed (.noCondition sc.function .do_) t.out)
      | condition :: stack =>
        if condition = .bool true then
          match ← body |>.eval ctx sc { t with stack } with
          | .failed e out => some (.failed e out)
          | .done u => Code.loop test body rest |>.eval ctx sc u
        else rest |>.eval ctx sc { t with stack }
partial_fixpoint

end Code

namespace Program

variable {σ : Type}

/-- Evaluates a call at top level, with arguments from the root stack. -/
def evaluateCall (ctx : Context σ) (name : String) (ownCaller : Bool) (root : Root σ) :
    Option (Answer σ (Root σ)) :=
  match ctx.program.functions[name]? with
  | none => some (.failed (.undefinedFunction name) root.out)
  | some d =>
    match d.bind globalName root.stack with
    | .failed e _ => some (.failed e root.out)
    | .bound args rest =>
      if 0 < ctx.maxFrames then do
        let body ← Code.ofTokens? d.body.toList
        let sc : Scope := { function := d.name, caller := globalName, ownCaller, live := 1 }
        (body.eval ctx sc { stack := args, returned := [], out := root.out }).map
          (Answer.map (·.leave ownCaller rest))
      else some (.failed (.frameLimit ctx.maxFrames) root.out)

/-- Flushes the sink of an evaluation that came to its end. -/
def flushed (sink : Sink σ) (root : Root σ) : Outcome σ :=
  match sink.flush root.out with
  | (out, none) => { out, result := .ok root.stack }
  | (out, some reason) => { out, result := .error (.writeFailed reason) }

/-- Evaluates the entry function, after the top-level words. -/
def evaluateEntry (p : Program) (options : RunOptions) (sink : Sink σ) :
    Answer σ (Root σ) → Option (Outcome σ)
  | .failed e out => some { out, result := .error e }
  | .done root =>
    let ctx : Context σ := { program := p, maxFrames := options.maxFrames, sink }
    if p.functions.contains options.entry then
      (evaluateCall ctx options.entry false root).map fun
        | .failed e out => { out, result := .error e }
        | .done root => flushed sink root
    else if options.requireEntry then
      some { out := root.out, result := .error (.entryNotFound options.entry) }
    else some (flushed sink root)

/-- Evaluates the top-level words, which are their own caller, and then the entry
function. -/
def evaluate (p : Program) (options : RunOptions) (sink : Sink σ) (out : σ) :
    Option (Outcome σ) := do
  let ctx : Context σ := { program := p, maxFrames := options.maxFrames, sink }
  p.evaluateEntry options sink (← evaluateCall ctx globalName true { stack := [], out })

end Program

end Wordstack
