-- SUMMARY: How numbers are written: for people, without an exponent, and in a data document.
import Wordstack.Number.Shortest

/-!
# The text of a number

Two layouts share the shortest digits. The plain layout never uses an exponent
and writes a whole number without a point. The document layout keeps a point or
an exponent in every number, so that a reader can tell it from a count.
-/

namespace Wordstack

namespace Digits

/-- Writes the digits with the point where it belongs, however many zeros that
takes; a whole number has no point. -/
def positional (d : Digits) : List Char :=
  if 0 ≤ d.exp then d.digits ++ List.replicate d.exp.toNat '0'
  else
    let places := (-d.exp).toNat
    if places < d.digits.length then
      let whole := d.digits.length - places
      d.digits.take whole ++ '.' :: d.digits.drop whole
    else
      '0' :: '.' :: List.replicate (places - d.digits.length) '0' ++ d.digits

/-- The exponent of the first digit. -/
def leadingExp (d : Digits) : Int := d.exp + d.digits.length - 1

/-- Writes one digit before the point and the power of ten with its sign. -/
def scientific (d : Digits) : List Char :=
  let fraction := d.digits.drop 1
  let mantissa := d.digits.take 1 ++ if fraction.isEmpty then [] else '.' :: fraction
  let e := d.leadingExp
  mantissa ++ 'e' :: (if e < 0 then '-' else '+') :: Nat.toDigits 10 e.natAbs

end Digits

namespace Number

/-- Whether the number has no fraction. Infinities and not-a-number do not count
as whole. -/
def isWhole (v : Float) : Bool :=
  match scaled? v with
  | some s => s.mant % Nat.pow 2 (-s.exp).toNat == 0
  | none => false

/-- Writes a minus sign in front if wanted. -/
def withSign (negative : Bool) (cs : List Char) : List Char :=
  if negative then '-' :: cs else cs

/-- The shortest digits without an exponent. The sign of a negative zero is
written. -/
def plainText (v : Float) : String :=
  match scaled? v with
  | none => if v.isNaN then "NaN" else if v < 0 then "-inf" else "inf"
  | some s =>
    String.ofList <| withSign s.negative <|
      if s.mant = 0 then ['0'] else (Digits.shortest .up s).positional

/-- The text that `print` shows. Whole numbers below `10 ^ 15` are written as
integers, so the sign of a negative zero is not. -/
def text (v : Float) : String :=
  match scaled? v with
  | none => if v.isNaN then "NaN" else if v < 0 then "-Infinity" else "Infinity"
  | some s =>
    let units := s.mant * Nat.pow 2 s.exp.toNat / Nat.pow 2 (-s.exp).toNat
    if isWhole v && units < Nat.pow 10 15 then
      String.ofList (withSign (s.negative && units ≠ 0) (Nat.toDigits 10 units))
    else plainText v

/-- The text of a finite number in a data document; others have none. Exponents
from -5 to 15 are written out, with a point even in whole numbers. -/
def documentText? (v : Float) : Option String :=
  (scaled? v).map fun s =>
    String.ofList <| withSign s.negative <|
      if s.mant = 0 then ['0', '.', '0']
      else
        let d := Digits.shortest .even s
        if -5 ≤ d.leadingExp && d.leadingExp ≤ 15 then
          d.positional ++ if 0 ≤ d.exp then ['.', '0'] else []
        else d.scientific

end Number

end Wordstack
