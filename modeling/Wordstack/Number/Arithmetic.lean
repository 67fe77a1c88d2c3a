-- SUMMARY: Exact operations on doubles beyond the basic four: remainder, dropping a fraction, rounding to a count.
import Wordstack.Number.Text

/-!
# Remainder, truncation and counts

None of these rounds: the remainder and the whole part of a double are doubles
again. They are computed on the scaled integers.
-/

namespace Wordstack.Number

/-- Not a number. -/
def nan : Float := Float.ofBits 0x7ff8000000000000

/-- Drops the fraction. The sign stays, also on a zero; infinities and
not-a-number stay as they are. -/
def truncate (v : Float) : Float :=
  match scaled? v with
  | none => v
  | some s =>
    if 0 ≤ s.exp then v
    else ofScaled { s with mant := s.mant / Nat.pow 2 (-s.exp).toNat, exp := 0 }

/-- The remainder of the division that drops the fraction of the quotient. It has
the sign of the dividend and is never rounded. Nothing is left over from an
infinite dividend or a zero divisor. -/
def remainder (a b : Float) : Float :=
  match scaled? a, scaled? b with
  | some x, some y =>
    if y.mant = 0 then nan
    else
      let e := min x.exp y.exp
      let r := x.mant * Nat.pow 2 (x.exp - e).toNat % (y.mant * Nat.pow 2 (y.exp - e).toNat)
      ofScaled { negative := x.negative, mant := r, exp := e }
  | some _, none => if b.isNaN then nan else a
  | none, _ => nan

/-- The nearest natural number below `2 ^ 64`; a half goes up. Negative numbers
and not-a-number give zero, what is too large the greatest count. -/
def toCount (v : Float) : Nat :=
  match scaled? v with
  | none => if v.isNaN || v < 0 then 0 else UInt64.size - 1
  | some s =>
    if s.negative then 0
    else
      let den := Nat.pow 2 (-s.exp).toNat
      min ((2 * (s.mant * Nat.pow 2 s.exp.toNat) + den) / (2 * den)) (UInt64.size - 1)

end Wordstack.Number
