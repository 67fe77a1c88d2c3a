-- SUMMARY: The fewest decimal digits that read back as a given double.
import Wordstack.Number.Scaled

/-!
# Shortest decimal digits

Every double is the nearest double to all the reals in an interval around it.
The shortest digits are those of a decimal in that interval on the coarsest grid
of powers of ten that meets it, and on that grid the nearer of the double's two
neighbours. Which of two equally near ones is taken is left to the caller.

Everything is counted in quarters of the double's last binary place, so that the
ends of the interval are natural numbers too.
-/

namespace Wordstack

/-- Which of two equally near decimals is taken. -/
inductive Tie where
  | up
  | even
deriving DecidableEq, Repr

/-- A positive decimal: the digits without trailing zeros, read as a natural
number, times `10 ^ exp`. -/
structure Digits where
  digits : List Char
  exp : Int
deriving DecidableEq, Repr

namespace Digits

/-- Moves the trailing zeros of a positive number into the exponent. -/
def ofNat (n : Nat) (exp : Int) : Digits :=
  let all := Nat.toDigits 10 n
  let kept := (all.reverse.dropWhile (· == '0')).reverse
  { digits := kept, exp := exp + (all.length - kept.length : Nat) }

-- -----------------------------------------------------------------------
-- The interval that rounds to a double
-- -----------------------------------------------------------------------

/-- Lower end of the interval, in quarters of the last place. Just above a power
of two the doubles below lie twice as dense. -/
def lowerEnd (s : Scaled) : Nat :=
  if s.mant = Nat.pow 2 52 ∧ Number.minExp < s.exp then 4 * s.mant - 1 else 4 * s.mant - 2

/-- Upper end of the interval, in quarters of the last place. -/
def upperEnd (s : Scaled) : Nat := 4 * s.mant + 2

/-- How many common units a quarter of the last place is worth, on the grid of
multiples of `10 ^ g`. -/
def quarterUnits (s : Scaled) (g : Int) : Nat :=
  Nat.pow 2 (s.exp - 2).toNat * Nat.pow 10 (-g).toNat

/-- How many common units a step of the grid is worth. -/
def gridUnits (s : Scaled) (g : Int) : Nat :=
  Nat.pow 10 g.toNat * Nat.pow 2 (2 - s.exp).toNat

/-- Whether `c * 10 ^ g` rounds to the double. The ends belong to the interval
exactly when the mantissa is even. -/
def inInterval (s : Scaled) (g : Int) (c : Nat) : Bool :=
  let x := c * gridUnits s g
  let lo := lowerEnd s * quarterUnits s g
  let hi := upperEnd s * quarterUnits s g
  if s.mant % 2 = 0 then lo ≤ x && x ≤ hi else lo < x && x < hi

-- -----------------------------------------------------------------------
-- Search
-- -----------------------------------------------------------------------

/-- The nearer of the two neighbours `c` and `c + 1` on the grid. -/
def nearer (tie : Tie) (s : Scaled) (g : Int) (c : Nat) : Nat :=
  let v := 2 * (4 * s.mant * quarterUnits s g)
  let middle := (2 * c + 1) * gridUnits s g
  if v < middle then c
  else if middle < v then c + 1
  else match tie with
    | .up => c + 1
    | .even => c + c % 2

/-- The multiple of `10 ^ g` to print, if one rounds to the double. -/
def onGrid? (tie : Tie) (s : Scaled) (g : Int) : Option Nat :=
  let c := 4 * s.mant * quarterUnits s g / gridUnits s g
  match inInterval s g c, inInterval s g (c + 1) with
  | true, true => some (nearer tie s g c)
  | true, false => some c
  | false, true => some (c + 1)
  | false, false => none

/-- The exponent `k` with `10 ^ k ≤ mant * 2 ^ exp < 10 ^ (k + 1)`. The estimate
from the binary exponent is at most one too small. -/
def floorLog10 (s : Scaled) : Int :=
  let k := Int.fdiv ((s.mant.log2 + s.exp) * 30103) 100000
  if Nat.pow 10 (k + 1).toNat * Nat.pow 2 (-s.exp).toNat
      ≤ s.mant * Nat.pow 2 s.exp.toNat * Nat.pow 10 (-(k + 1)).toNat
  then k + 1 else k

/-- All the decimal digits of a positive double. -/
def exact (s : Scaled) : Digits :=
  ofNat (s.mant * Nat.pow 2 s.exp.toNat * Nat.pow 5 (-s.exp).toNat) (min s.exp 0)

/-- The shortest digits of a positive double. Seventeen always suffice. -/
def shortest (tie : Tie) (s : Scaled) : Digits :=
  let k := floorLog10 s
  let found := (List.range 17).findSome? fun (i : Nat) =>
    (onGrid? tie s (k - i)).map (ofNat · (k - i))
  found.getD (exact s)

end Digits

end Wordstack
