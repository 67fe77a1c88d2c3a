-- SUMMARY: Decimal literals: their grammar, and the double nearest to one.
import Wordstack.Number.Scaled

/-!
# Decimal literals

A literal is an optional sign, digits with at most one point among or around
them, and an optional power of ten. It is read exactly, and only then rounded,
so any number of digits gives the nearest double.
-/

namespace Wordstack

/-- The exact value `digits * 10 ^ exp`, negated if `negative` holds. -/
structure Decimal where
  negative : Bool
  digits : Nat
  exp : Int
deriving DecidableEq, Repr

namespace Decimal

-- -----------------------------------------------------------------------
-- Reading
-- -----------------------------------------------------------------------

/-- The number written by a run of decimal digits. -/
def natOfDigits (cs : List Char) : Nat :=
  cs.foldl (fun n c => 10 * n + (c.toNat - '0'.toNat)) 0

/-- Splits an optional sign off: whether it was a minus, and the rest. -/
def splitSign : List Char → Bool × List Char
  | '-' :: cs => (true, cs)
  | '+' :: cs => (false, cs)
  | cs => (false, cs)

/-- The power of ten after the digits, which may be absent altogether. -/
def exponent? : List Char → Option Int
  | [] => some 0
  | c :: cs =>
    if c == 'e' || c == 'E' then
      let (negative, ds) := splitSign cs
      if ds.isEmpty || !ds.all Char.isDigit then none
      else some (if negative then -(natOfDigits ds : Int) else natOfDigits ds)
    else none

/-- Reads a literal such as `3`, `-2.5`, `.5`, `1.` or `1e3`. At least one digit
has to stand before the power of ten. -/
def parse? (cs : List Char) : Option Decimal :=
  let (negative, cs) := splitSign cs
  let whole := cs.takeWhile Char.isDigit
  let rest := cs.dropWhile Char.isDigit
  let (fraction, rest) :=
    match rest with
    | '.' :: cs => (cs.takeWhile Char.isDigit, cs.dropWhile Char.isDigit)
    | cs => ([], cs)
  if whole.isEmpty && fraction.isEmpty then none
  else do
    let exp ← exponent? rest
    return { negative, digits := natOfDigits (whole ++ fraction), exp := exp - fraction.length }

-- -----------------------------------------------------------------------
-- Rounding
-- -----------------------------------------------------------------------

/-- The magnitude of the double nearest to the value. Since `8 ^ n ≤ 10 ^ n`, a
value far out of range is settled by the size of the digits and the exponent, and
its power of ten never computed: multiplying by `10 ^ n` gains `3 * n` binary places
or more, and dividing by it loses as many. -/
def magnitude (d : Decimal) : Nat :=
  if d.digits = 0 then 0
  else if 0 ≤ d.exp && 1024 ≤ d.digits.log2 + 3 * d.exp then Number.infinity
  else if d.exp < 0 && d.digits.log2 + 1 + 3 * d.exp ≤ -1075 then 0
  else Number.nearest (d.digits * Nat.pow 10 d.exp.toNat) (Nat.pow 10 (-d.exp).toNat)

/-- The double nearest to the value; a minus sign survives on a zero. -/
def toFloat (d : Decimal) : Float :=
  Number.ofMagnitude d.negative d.magnitude

end Decimal

end Wordstack
