-- SUMMARY: The dates and times of configuration files.

/-!
# Dates and times

A date, a time of day, or both with an optional offset. For settings only their texts
matter, in one common form: `T` between date and time, an upper-case `Z`, a plus sign
before a zero offset, and no more digits of a second than are needed.
-/

namespace Wordstack.Toml

/-- The number that two digits spell. -/
def twoDigits? (a b : Char) : Option Nat :=
  if a.isDigit && b.isDigit then some (10 * (a.toNat - 48) + (b.toNat - 48)) else none

def isLeapYear (year : Nat) : Bool :=
  year % 4 == 0 && (year % 100 != 0 || year % 400 == 0)

def daysInMonth (year month : Nat) : Nat :=
  if month = 2 then if isLeapYear year then 29 else 28
  else if month ∈ [4, 6, 9, 11] then 30
  else 31

/-- Reads a date. -/
def readDate : List Char → Option (List Char × List Char)
  | y1 :: y2 :: y3 :: y4 :: '-' :: m1 :: m2 :: '-' :: d1 :: d2 :: rest => do
    let year := 100 * (← twoDigits? y1 y2) + (← twoDigits? y3 y4)
    let month ← twoDigits? m1 m2
    let day ← twoDigits? d1 d2
    if 1 ≤ month && month ≤ 12 && 1 ≤ day && day ≤ daysInMonth year month then
      some ([y1, y2, y3, y4, '-', m1, m2, '-', d1, d2], rest)
    else none
  | _ => none

/-- The text of a fraction of a second: nine digits count, and zeros at the end do
not. -/
def fractionText (ds : List Char) : List Char :=
  let kept := ((ds.take 9).reverse.dropWhile (· == '0')).reverse
  if kept.isEmpty then [] else '.' :: kept

/-- Reads a fraction of a second, if there is one. -/
def readFraction : List Char → Option (List Char × List Char)
  | '.' :: cs =>
    let ds := cs.takeWhile Char.isDigit
    if ds.isEmpty then none else some (fractionText ds, cs.dropWhile Char.isDigit)
  | cs => some ([], cs)

/-- Reads a time of day. A minute may have a leap second. -/
def readTime : List Char → Option (List Char × List Char)
  | h1 :: h2 :: ':' :: m1 :: m2 :: ':' :: s1 :: s2 :: rest => do
    let hour ← twoDigits? h1 h2
    let minute ← twoDigits? m1 m2
    let second ← twoDigits? s1 s2
    if hour ≤ 23 && minute ≤ 59 && second ≤ 60 then
      let (fraction, rest) ← readFraction rest
      some ([h1, h2, ':', m1, m2, ':', s1, s2] ++ fraction, rest)
    else none
  | _ => none

/-- The text of an offset, if there is one. -/
def offset? : List Char → Option (List Char)
  | [] => some []
  | ['Z'] | ['z'] => some ['Z']
  | [sign, h1, h2, ':', m1, m2] => do
    let hour ← twoDigits? h1 h2
    let minute ← twoDigits? m1 m2
    if (sign == '+' || sign == '-') && hour ≤ 23 && minute ≤ 59 then
      some [if hour + minute = 0 then '+' else sign, h1, h2, ':', m1, m2]
    else none
  | _ => none

/-- The text of a time with an offset. -/
def offsetTime? (cs : List Char) : Option (List Char) := do
  let (time, rest) ← readTime cs
  return time ++ (← offset? rest)

/-- The text of a date, of a time, or of both. -/
def dateTime? (cs : List Char) : Option (List Char) :=
  match readDate cs with
  | some (date, []) => some date
  | some (date, c :: rest) =>
    if c == 'T' || c == 't' then (offsetTime? rest).map (date ++ 'T' :: ·) else none
  | none =>
    match readTime cs with
    | some (time, []) => some time
    | _ => none

end Wordstack.Toml
