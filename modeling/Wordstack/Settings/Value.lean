-- SUMMARY: Values of settings before they have a type, and what each type makes of them.
import Wordstack.Number.Arithmetic
import Wordstack.Number.Decimal
import Wordstack.Text.Lowercase

/-!
# Untyped values of settings

A configuration file and the environment give values of several kinds for one and
the same setting. They are made to fit the type of the setting as far as that
makes sense.
-/

namespace Wordstack

/-- A value as its source gives it. The elements of a list and the fields of a table
play no part, but it matters whether a table has any. -/
inductive RawValue where
  | null
  | bool (b : Bool)
  | int (i : Int)
  | float (v : Float)
  | text (s : String)
  | list
  | table (isEmpty : Bool)
deriving DecidableEq, Repr

/-- What stands where something else is needed. -/
inductive Unfit where
  | null
  | negative (i : Int)
  | text (s : String)
  | list
  | table
deriving DecidableEq, Repr

/-- What a setting needs. -/
inductive Need where
  | boolean
  | text
  | integer
  | unsigned
deriving DecidableEq, Repr

namespace RawValue

-- -----------------------------------------------------------------------
-- Values of variables
-- -----------------------------------------------------------------------

/-- An integer of 64 bits with an optional sign. -/
def int? (s : String) : Option Int :=
  let (negative, ds) := Decimal.splitSign s.toList
  if ds.isEmpty || !ds.all Char.isDigit then none
  else
    let i : Int := if negative then -(Decimal.natOfDigits ds : Int) else Decimal.natOfDigits ds
    if Int64.minValue.toInt ≤ i && i ≤ Int64.maxValue.toInt then some i else none

/-- A decimal literal, or the name of an infinity or of not-a-number. -/
def float? (s : String) : Option Float :=
  match Decimal.parse? s.toList with
  | some d => some d.toFloat
  | none =>
    let (negative, name) := Decimal.splitSign s.toList
    let name := String.ofList (name.map Char.toLower)
    if name = "inf" || name = "infinity" then some (Number.ofMagnitude negative Number.infinity)
    else if name = "nan" then some Number.nan
    else none

/-- The value that a variable's text stands for: a truth value, an integer or a
number if it reads as one, else the text itself. -/
def ofVariable (s : String) : RawValue :=
  let lower := Text.lowercase s
  if lower = "true" then .bool true
  else if lower = "false" then .bool false
  else
    match int? s with
    | some i => .int i
    | none =>
      match float? s with
      | some v => .float v
      | none => .text s

-- -----------------------------------------------------------------------
-- Values of a type
-- -----------------------------------------------------------------------

/-- Any single value has a text. -/
def toText : RawValue → Except (Unfit × Need) String
  | .null => .error (.null, .text)
  | .bool b => .ok (if b then "true" else "false")
  | .int i => .ok (toString i)
  | .float v => .ok (Number.plainText v)
  | .text s => .ok s
  | .list => .error (.list, .text)
  | .table _ => .error (.table, .text)

/-- Numbers other than zero are true. -/
def toBool : RawValue → Except (Unfit × Need) Bool
  | .null => .error (.null, .boolean)
  | .bool b => .ok b
  | .int i => .ok (i != 0)
  | .float v => .ok (v != 0)
  | .text s =>
    let s := Text.lowercase s
    if s ∈ ["1", "true", "on", "yes"] then .ok true
    else if s ∈ ["0", "false", "off", "no"] then .ok false
    else .error (.text s, .boolean)
  | .list => .error (.list, .boolean)
  | .table _ => .error (.table, .boolean)

/-- A count below `2 ^ 64`, with an optional plus sign. -/
def count? (s : String) : Option Nat :=
  let ds := match s.toList with
    | '+' :: ds => ds
    | ds => ds
  if ds.isEmpty || !ds.all Char.isDigit then none
  else
    let n := Decimal.natOfDigits ds
    if n < UInt64.size then some n else none

/-- Numbers are rounded, and truth values count as one and zero. -/
def toCount : RawValue → Except (Unfit × Need) Nat
  | .null => .error (.null, .integer)
  | .bool b => .ok (if b then 1 else 0)
  | .int i => if i < 0 then .error (.negative i, .unsigned) else .ok i.toNat
  | .float v => .ok (Number.toCount v)
  | .text s =>
    let lower := Text.lowercase s
    if lower ∈ ["true", "on", "yes"] then .ok 1
    else if lower ∈ ["false", "off", "no"] then .ok 0
    else
      match count? s with
      | some n => .ok n
      | none => .error (.text s, .integer)
  | .list => .error (.list, .integer)
  | .table _ => .error (.table, .integer)

end RawValue

end Wordstack
