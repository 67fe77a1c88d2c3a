-- SUMMARY: The integers and floats of configuration files.
import Wordstack.Number.Arithmetic
import Wordstack.Number.Decimal

/-!
# Numbers of configuration files

Digits may be grouped by single underscores. Integers have 64 bits and may be written
in base sixteen, eight or two as well. Floats are the nearest doubles.
-/

namespace Wordstack.Toml

/-- Digits with single underscores between them, without these. -/
def ungroup? (isDigit : Char → Bool) : List Char → Option (List Char)
  | [] => none
  | [c] => if isDigit c then some [c] else none
  | c :: '_' :: cs => if isDigit c then (ungroup? isDigit cs).map (c :: ·) else none
  | c :: cs => if isDigit c then (ungroup? isDigit cs).map (c :: ·) else none

/-- The whole part of a number: no needless zero in front. -/
def whole? (cs : List Char) : Option (List Char) := do
  let ds ← ungroup? Char.isDigit cs
  if ds.head? == some '0' && ds.length != 1 then none else some ds

-- -----------------------------------------------------------------------
-- Floats
-- -----------------------------------------------------------------------

def isGroupedDigit (c : Char) : Bool := c.isDigit || c == '_'

/-- The exponent of a float, if it has one. -/
def exponent? : List Char → Option Int
  | [] => some 0
  | c :: cs =>
    if c == 'e' || c == 'E' then do
      let (negative, cs) := Decimal.splitSign cs
      let n : Int := Decimal.natOfDigits (← ungroup? Char.isDigit cs)
      return if negative then -n else n
    else none

/-- The decimal that a float spells: a whole part with a fraction, an exponent or
both. -/
def decimal? (negative : Bool) (cs : List Char) : Option Decimal := do
  let whole ← whole? (cs.takeWhile isGroupedDigit)
  match cs.dropWhile isGroupedDigit with
  | '.' :: rest =>
    let fraction ← ungroup? Char.isDigit (rest.takeWhile isGroupedDigit)
    let exp ← exponent? (rest.dropWhile isGroupedDigit)
    let digits := Decimal.natOfDigits (whole ++ fraction)
    return { negative, digits, exp := exp - fraction.length }
  | rest => return { negative, digits := Decimal.natOfDigits whole, exp := ← exponent? rest }

/-- A float. Positive infinity has to be written as such: a decimal beyond all
doubles does not stand for it. -/
def float? (cs : List Char) : Option Float := do
  let (negative, cs) := Decimal.splitSign cs
  if cs = ['i', 'n', 'f'] then some (Number.ofMagnitude negative Number.infinity)
  else if cs = ['n', 'a', 'n'] then some Number.nan
  else
    let v := (← decimal? negative cs).toFloat
    if v = Number.ofMagnitude false Number.infinity then none else some v

-- -----------------------------------------------------------------------
-- Integers
-- -----------------------------------------------------------------------

/-- The value of a digit. -/
def digitValue (c : Char) : Nat :=
  if c.isDigit then c.toNat - '0'.toNat else c.toLower.toNat - 'a'.toNat + 10

def isHexDigit (c : Char) : Bool := c.isDigit || ('a' ≤ c.toLower && c.toLower ≤ 'f')

/-- The number that digits of a base spell. -/
def inBase? (base : Nat) (cs : List Char) : Option Nat := do
  let ds ← ungroup? (fun c => isHexDigit c && digitValue c < base) cs
  return ds.foldl (fun n c => base * n + digitValue c) 0

/-- The integer that a text spells, of any size. A sign needs decimal digits. -/
def integer? : List Char → Option Int
  | '0' :: 'x' :: cs => (inBase? 16 cs).map Int.ofNat
  | '0' :: 'o' :: cs => (inBase? 8 cs).map Int.ofNat
  | '0' :: 'b' :: cs => (inBase? 2 cs).map Int.ofNat
  | cs => do
    let (negative, ds) := Decimal.splitSign cs
    let n : Int := Decimal.natOfDigits (← whole? ds)
    return if negative then -n else n

/-- An integer of 64 bits. -/
def int? (cs : List Char) : Option Int := do
  let i ← integer? cs
  if Int64.minValue.toInt ≤ i && i ≤ Int64.maxValue.toInt then some i else none

end Wordstack.Toml
