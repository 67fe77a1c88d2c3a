-- SUMMARY: Finite doubles as a sign and a magnitude `mant * 2 ^ exp`, and rounding of a quotient to the nearest double.

/-!
# Doubles as scaled integers

The exact work on numbers (reading and writing decimals, remainders, dropping a
fraction) happens on natural numbers. This file takes a finite double apart into
`± mant * 2 ^ exp` and puts the double nearest to a quotient together.

The magnitude of a double is its bit pattern without the sign bit, as a number
below `2 ^ 63`. Magnitudes are ordered like the values they stand for, and
neighbouring doubles have neighbouring magnitudes.
-/

namespace Wordstack

/-- A finite double: the value `mant * 2 ^ exp`, negated if `negative` holds. -/
structure Scaled where
  negative : Bool
  mant : Nat
  exp : Int
deriving DecidableEq, Repr

namespace Number

-- -----------------------------------------------------------------------
-- Magnitudes
-- -----------------------------------------------------------------------

/-- The least exponent of a double, that of the subnormal numbers. -/
def minExp : Int := -1074

/-- The magnitude of infinity. Those above it belong to no number. -/
def infinity : Nat := 2047 * Nat.pow 2 52

/-- The double with a given sign and magnitude. -/
def ofMagnitude (negative : Bool) (magnitude : Nat) : Float :=
  Float.ofBits (UInt64.ofNat (if negative then magnitude + Nat.pow 2 63 else magnitude))

/-- The mantissa that a finite magnitude stands for. -/
def mantissa (magnitude : Nat) : Nat :=
  if magnitude < Nat.pow 2 52 then magnitude else magnitude % Nat.pow 2 52 + Nat.pow 2 52

/-- The exponent that a finite magnitude stands for. -/
def exponent (magnitude : Nat) : Int :=
  if magnitude < Nat.pow 2 52 then minExp else (magnitude / Nat.pow 2 52 : Nat) - 1 + minExp

/-- Takes a finite double apart. Infinities and not-a-number have no parts. -/
def scaled? (v : Float) : Option Scaled :=
  let bits := v.toBits.toNat
  let magnitude := bits % Nat.pow 2 63
  if magnitude < infinity then
    some { negative := Nat.pow 2 63 ≤ bits, mant := mantissa magnitude, exp := exponent magnitude }
  else
    none

-- -----------------------------------------------------------------------
-- Rounding a quotient
-- -----------------------------------------------------------------------

/-- The integer nearest to `num / den`; of two equally near ones, the even one. -/
def roundHalfEven (num den : Nat) : Nat :=
  let q := num / den
  let r := num % den
  if 2 * r < den then q else if den < 2 * r then q + 1 else q + q % 2

/-- The exponent `e` with `2 ^ e ≤ num / den < 2 ^ (e + 1)`. -/
def floorLog2 (num den : Nat) : Int :=
  let e : Int := num.log2 - den.log2
  if den * Nat.pow 2 e.toNat ≤ num * Nat.pow 2 (-e).toNat then e else e - 1

/-- The magnitude of the double nearest to `num / den`. Ties go to the even
mantissa, and what is too large becomes infinity. A mantissa that rounds up to
`2 ^ 53` carries into the exponent field by itself. -/
def nearest (num den : Nat) : Nat :=
  if num = 0 then 0
  else
    let e := max (floorLog2 num den - 52) minExp
    let m := roundHalfEven (num * Nat.pow 2 (-e).toNat) (den * Nat.pow 2 e.toNat)
    min ((e - minExp).toNat * Nat.pow 2 52 + m) infinity

/-- The double nearest to `± mant * 2 ^ exp`. -/
def ofScaled (s : Scaled) : Float :=
  ofMagnitude s.negative (nearest (s.mant * Nat.pow 2 s.exp.toNat) (Nat.pow 2 (-s.exp).toNat))

end Number

end Wordstack
