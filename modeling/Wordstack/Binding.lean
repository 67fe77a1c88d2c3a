-- SUMMARY: Binding the arguments of a call from the caller's stack.
import Wordstack.Program

/-!
# Binding arguments

A call takes one value per parameter off the caller's stack, the last parameter
first, and checks each against its declared type. What it took is gone from the
caller's stack even if the call then fails.
-/

namespace Wordstack

/-- The outcome of binding, with what is left on the caller's stack. -/
inductive Bound where
  | bound (stack callerStack : Stack)
  | failed (error : Error) (callerStack : Stack)
deriving DecidableEq, Repr

namespace Definition

/-- Binds parameters given in reverse order. The values bound so far lie in `done`,
the one of the earliest parameter first. -/
def bindFrom (d : Definition) (caller : String) (done : List Token) :
    List Param → Stack → Bound
  | [], stack => .bound done.reverse stack
  | _ :: _, [] =>
    .failed (.missingArguments d.name caller d.params.length done.length) []
  | p :: before, value :: stack =>
    match p.type.accept value with
    | some value => bindFrom d caller (value :: done) before stack
    | none => .failed (.argumentType d.name before.length p.type value) stack

/-- Binds the arguments of a call by the function named `caller`. The new stack
holds them in declaration order, the last one on top. -/
def bind (d : Definition) (caller : String) (stack : Stack) : Bound :=
  d.bindFrom caller [] d.params.reverse stack

end Definition

end Wordstack
