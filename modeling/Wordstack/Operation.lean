-- SUMMARY: What each operator does to a data stack.
import Wordstack.Error
import Wordstack.Number.Arithmetic

/-!
# Operators on a stack

Applying an operator is a function of the stack alone. Printing and returning only
say what is to be printed or returned; where that goes is not decided here. A
failing operator leaves a stack behind too.

A stack is written with its top first, so `b :: a :: s` holds the first operand
`a` below the second operand `b`.
-/

namespace Wordstack

/-- The outcome of an operator, with the stack it leaves. -/
inductive Effect where
  | next (stack : Stack)
  | print (line : String) (stack : Stack)
  | ret (value : Token) (stack : Stack)
  | fail (error : Error) (stack : Stack)
deriving DecidableEq, Repr

namespace Effect

/-- The stack that the operator leaves. -/
def stack : Effect → Stack
  | .next s | .print _ s | .ret _ s | .fail _ s => s

end Effect

namespace Operator

/-- How many values the operator needs. -/
def arity : Operator → Nat
  | .rot => 3
  | .print | .ret | .copy | .drop | .sqrt => 1
  | _ => 2

/-- What arithmetic makes of two numbers. -/
def arithmetic : Operator → Float → Float → Float
  | .sub => (· - ·)
  | .mul => (· * ·)
  | .div => (· / ·)
  | .mod => Number.remainder
  | _ => (· + ·)

/-- What a comparison says of two numbers. Nothing is comparable with
not-a-number. -/
def comparison : Operator → Float → Float → Bool
  | .gt => fun a b => b < a
  | .lt => fun a b => a < b
  | .ge => fun a b => b ≤ a
  | _ => fun a b => a ≤ b

/-- The refusal of two operands, which stay on the stack. -/
def mismatch (op : Operator) (wanted : Wanted) (a b : Token) (rest : Stack) : Effect :=
  .fail (.typeMismatch op wanted [a, b]) (b :: a :: rest)

/-- Applies an operator of two operands. Arithmetic keeps the kind of the first
operand; `max` and `min` choose one of the operands as it is, and the first one
where both are equal. -/
def applyTwo (op : Operator) (a b : Token) (rest : Stack) : Effect :=
  match op with
  | .add =>
    match a, b with
    | .num kind x, .num _ y => .next (.num kind (x + y) :: rest)
    | .str s, .str t => .next (.str (s ++ t) :: rest)
    | _, _ => mismatch op .twoNumbersOrStrings a b rest
  | .sub | .mul | .div | .mod =>
    match a, b with
    | .num kind x, .num _ y => .next (.num kind (arithmetic op x y) :: rest)
    | _, _ => mismatch op .twoNumbers a b rest
  | .max =>
    match a, b with
    | .num _ x, .num _ y => .next ((if y ≤ x then a else b) :: rest)
    | _, _ => mismatch op .twoNumbers a b rest
  | .min =>
    match a, b with
    | .num _ x, .num _ y => .next ((if x ≤ y then a else b) :: rest)
    | _, _ => mismatch op .twoNumbers a b rest
  | .gt | .lt | .ge | .le =>
    match a, b with
    | .num _ x, .num _ y => .next (.bool (comparison op x y) :: rest)
    | _, _ => mismatch op .twoNumbers a b rest
  | .eq => .next (.bool (a.sameValue b) :: rest)
  | .ne => .next (.bool (!a.sameValue b) :: rest)
  | .is =>
    match b with
    | .type t => .next (.bool (t.accept a).isSome :: rest)
    | _ => mismatch op .valueAndType a b rest
  | .assert => if a.sameValue b then .next rest else .fail (.assertionFailed a b) rest
  | .swap => .next (a :: b :: rest)
  | .carry => .next (a :: b :: a :: rest)
  -- the operators with another number of operands
  | _ => .next (b :: a :: rest)

/-- Applies an operator of one operand. The root of an `int` stays whole. -/
def applyOne (op : Operator) (a : Token) (rest : Stack) : Effect :=
  match op with
  | .print =>
    if a.isPrintable then .print (a.text ++ "\n") rest else .fail (.notPrintable a) rest
  | .ret => .ret a rest
  | .drop => .next rest
  | .sqrt =>
    match a with
    | .num .int v => .next (.num .int (Number.truncate v.sqrt) :: rest)
    | .num kind v => .next (.num kind v.sqrt :: rest)
    | _ => .fail (.typeMismatch op .number [a]) (a :: rest)
  -- `copy`, and the operators with another number of operands
  | _ => .next (a :: a :: rest)

/-- Applies an operator to a stack. With too few values the stack stays as it is.
Of the three values that `rot` needs, the top two change places. -/
def apply (op : Operator) (stack : Stack) : Effect :=
  match op.arity, stack with
  | 1, a :: rest => op.applyOne a rest
  | 2, b :: a :: rest => op.applyTwo a b rest
  | 3, c :: b :: a :: rest => .next (b :: c :: a :: rest)
  | _, _ => .fail (.stackUnderflow op op.arity stack.length) stack

end Operator

end Wordstack
