-- SUMMARY: What the strings and numbers of a JSON document stand for.
import Wordstack.Json
import Wordstack.Number.Decimal

/-!
# Strings and numbers of documents

A document keeps its strings and numbers as they are written. Not every one of them
stands for something: a string may hold half of a pair of code units, and a number
may be too large.

Numbers are read with one rounding for each step. The digits are gathered into a word
of 64 bits as long as they fit; that word is rounded to a double and then multiplied
or divided by a rounded power of ten. The result can be off by a little from the
double that is nearest to the literal.
-/

namespace Wordstack.Json

-- -----------------------------------------------------------------------
-- Strings
-- -----------------------------------------------------------------------

/-- The value of a hexadecimal digit. -/
def hexDigit? (c : Char) : Option Nat :=
  if '0' ≤ c && c ≤ '9' then some (c.toNat - '0'.toNat)
  else if 'a' ≤ c && c ≤ 'f' then some (c.toNat - 'a'.toNat + 10)
  else if 'A' ≤ c && c ≤ 'F' then some (c.toNat - 'A'.toNat + 10)
  else none

/-- The code unit of four hexadecimal digits. -/
def hexUnit? (a b c d : Char) : Option Nat := do
  let a ← hexDigit? a
  let b ← hexDigit? b
  let c ← hexDigit? c
  let d ← hexDigit? d
  return ((a * 16 + b) * 16 + c) * 16 + d

/-- The character of a short escape. -/
def unescape? : Char → Option Char
  | '"' => some '"'
  | '\\' => some '\\'
  | '/' => some '/'
  | 'b' => some '\x08'
  | 'f' => some '\x0c'
  | 'n' => some '\n'
  | 'r' => some '\r'
  | 't' => some '\t'
  | _ => none

/-- The text that a written string stands for; its characters so far are kept in
reverse. A character beyond the first plane may be given by two code units, neither of
which may stand alone. -/
def decode? (done : List Char) : List Char → Option String
  | [] => some (String.ofList done.reverse)
  | '\\' :: 'u' :: a :: b :: c :: d :: cs =>
    match hexUnit? a b c d with
    | none => none
    | some unit =>
      if 0xd800 ≤ unit && unit < 0xdc00 then
        match cs with
        | '\\' :: 'u' :: a :: b :: c :: d :: cs =>
          match hexUnit? a b c d with
          | none => none
          | some low =>
            if 0xdc00 ≤ low && low < 0xe000 then
              decode? (Char.ofNat (0x10000 + (unit - 0xd800) * 0x400 + (low - 0xdc00)) :: done) cs
            else none
        | _ => none
      else if 0xdc00 ≤ unit && unit < 0xe000 then none
      else decode? (Char.ofNat unit :: done) cs
  | '\\' :: c :: cs =>
    match unescape? c with
    | some c => decode? (c :: done) cs
    | none => none
  | c :: cs => if c == '\\' then none else decode? (c :: done) cs

/-- The text of a written string. -/
def textOf? (written : String) : Option String := decode? [] written.toList

-- -----------------------------------------------------------------------
-- Numbers
-- -----------------------------------------------------------------------

/-- The digits that are kept of a literal, and the power of ten to scale them by. -/
structure Significand where
  digits : Nat
  exp : Int
deriving DecidableEq, Repr

namespace Significand

/-- One more digit at the end of a number. -/
def push (n : Nat) (c : Char) : Nat := 10 * n + (c.toNat - '0'.toNat)

/-- Takes in the digits before the point. From the first one on that does not fit they
only count. -/
def whole (n : Nat) : List Char → Significand
  | [] => { digits := n, exp := 0 }
  | c :: cs =>
    if push n c < UInt64.size then whole (push n c) cs
    else { digits := n, exp := cs.length + 1 }

/-- Takes in the digits after the point, up to the first one that does not fit. -/
def fraction (s : Significand) : List Char → Significand
  | [] => s
  | c :: cs =>
    if push s.digits c < UInt64.size then
      fraction { digits := push s.digits c, exp := s.exp - 1 } cs
    else s

/-- A power of ten as a double. -/
def power (k : Nat) : Float := Decimal.toFloat { negative := false, digits := 1, exp := k }

/-- The greatest power of ten that is multiplied or divided by at once. -/
def maxPower : Nat := 308

/-- Divides by a power of ten, in two steps if it is a large one. Even the greatest
word vanishes when it is divided by more than two steps can. -/
def scaleDown (v : Float) (k : Nat) : Float :=
  if k ≤ maxPower then v / power k
  else if k ≤ 2 * maxPower then v / power maxPower / power (k - maxPower)
  else 0

/-- The double that the digits and the power of ten stand for, unless that is too
large. -/
def toFloat? (s : Significand) : Option Float :=
  let v := Decimal.toFloat { negative := false, digits := s.digits, exp := 0 }
  if s.exp < 0 then some (scaleDown v (-s.exp).toNat)
  else if s.digits = 0 then some v
  else if s.exp.toNat ≤ maxPower then
    let v := v * power s.exp.toNat
    if v.isFinite then some v else none
  else none

end Significand

/-- The double that a number literal stands for, unless that is too large. A minus sign
survives on a zero. -/
def floatOfLiteral? (literal : String) : Option Float :=
  let (negative, cs) := Decimal.splitSign literal.toList
  let whole := Significand.whole 0 (cs.takeWhile Char.isDigit)
  let rest := cs.dropWhile Char.isDigit
  let (s, rest) :=
    match rest with
    | '.' :: cs => (whole.fraction (cs.takeWhile Char.isDigit), cs.dropWhile Char.isDigit)
    | cs => (whole, cs)
  match Decimal.exponent? rest with
  | none => none
  | some exp =>
    ({ s with exp := s.exp + exp } : Significand).toFloat?.map fun v => if negative then -v else v

/-- The count that a literal writes: digits only, without a needless zero, and
below `2 ^ 64`. -/
def countOfLiteral? (literal : String) : Option Nat :=
  let ds := literal.toList
  if ds.isEmpty || !ds.all Char.isDigit || (ds.head? == some '0' && ds.length != 1) then none
  else
    let n := Decimal.natOfDigits ds
    if n < UInt64.size then some n else none

end Wordstack.Json
