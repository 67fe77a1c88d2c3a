-- SUMMARY: Keys of settings, which may lead into a table or a list.

/-!
# Keys

A key is a name that may be followed by steps: `.name` into a table and `[index]` into
a list. For the setting that the name stands for only the first step matters: it tells
what the setting has to be.
-/

namespace Wordstack

/-- A step into what a name stands for. -/
inductive KeyStep where
  | field
  | item
deriving DecidableEq, Repr

/-- A name, and the first step that follows it if there is one. -/
structure Key where
  name : String
  step : Option KeyStep := none
deriving DecidableEq, Repr

namespace Key

def isNameChar (c : Char) : Bool := c.isAlphanum || c == ' ' || c == '_' || c == '-'

def isSpace (c : Char) : Bool := c == ' ' || c == '\t'

/-- What has been read of the steps. -/
inductive Progress where
  /-- At the end of a step. -/
  | complete
  | point
  | name
  | bracket
  | sign
  | digits (negative : Bool) (n : Nat)
  | afterIndex
deriving DecidableEq, Repr

namespace Progress

/-- Whether an index fits into 64 bits with a sign. -/
def fits (negative : Bool) (n : Nat) : Bool :=
  let i : Int := if negative then -n else n
  Int64.minValue.toInt ≤ i && i ≤ Int64.maxValue.toInt

/-- The start of a step. -/
def start? (c : Char) : Option Progress :=
  if c == '.' then some .point else if c == '[' then some .bracket else none

/-- Reads one more character. -/
def push? : Progress → Char → Option Progress
  | .complete, c => start? c
  | .point, c => if isNameChar c then some .name else none
  | .name, c => if isNameChar c then some .name else start? c
  | .bracket, c =>
    if isSpace c then some .bracket
    else if c == '-' then some .sign
    else if c.isDigit then some (.digits false (c.toNat - 48))
    else none
  | .sign, c => if c.isDigit then some (.digits true (c.toNat - 48)) else none
  | .digits negative n, c =>
    if c.isDigit then some (.digits negative (10 * n + (c.toNat - 48)))
    else if !fits negative n then none
    else if isSpace c then some .afterIndex
    else if c == ']' then some .complete
    else none
  | .afterIndex, c =>
    if isSpace c then some .afterIndex else if c == ']' then some .complete else none

/-- Whether the steps may end here. -/
def mayEnd : Progress → Bool
  | .complete | .name => true
  | _ => false

end Progress

/-- Whether a text consists of steps. -/
def areSteps (cs : List Char) : Bool :=
  ((cs.foldlM Progress.push? .complete).map Progress.mayEnd).getD false

/-- Reads a key. A text that is not a name with steps is a name as a whole. -/
def ofText (text : String) : Key :=
  let name := text.toList.takeWhile isNameChar
  let steps := text.toList.dropWhile isNameChar
  if name.isEmpty || !areSteps steps then { name := text }
  else
    { name := String.ofList name,
      step := steps.head?.map fun c => if c == '.' then .field else .item }

end Key

end Wordstack
