-- SUMMARY: Reading JSON documents.
import Wordstack.Json.Literal

/-!
# Reading JSON

A reader takes characters off the front of a text and gives what it read and the
rest. Values nest, so they are read with fuel; the number of characters bounds the
fuel that a document can need.
-/

namespace Wordstack.Json

-- -----------------------------------------------------------------------
-- Strings and numbers
-- -----------------------------------------------------------------------

def isSpace (c : Char) : Bool := c == ' ' || c == '\n' || c == '\t' || c == '\r'

def skipSpace (cs : List Char) : List Char := cs.dropWhile isSpace

/-- Reads a string after its opening quote and keeps it as it is written. The
characters so far are kept in reverse. -/
def readString (done : List Char) : List Char → Option (String × List Char)
  | [] => none
  | '"' :: cs => some (String.ofList done.reverse, cs)
  | '\\' :: 'u' :: a :: b :: c :: d :: cs =>
    if (hexUnit? a b c d).isSome then readString (d :: c :: b :: a :: 'u' :: '\\' :: done) cs
    else none
  | '\\' :: c :: cs =>
    if (unescape? c).isSome then readString (c :: '\\' :: done) cs else none
  | c :: cs => if c == '\\' || c.toNat < 0x20 then none else readString (c :: done) cs

/-- Reads one or more digits. -/
def readDigits (cs : List Char) : Option (List Char × List Char) :=
  let digits := cs.takeWhile Char.isDigit
  if digits.isEmpty then none else some (digits, cs.dropWhile Char.isDigit)

/-- Reads the digits before the point, which start with a zero only if that is all. -/
def readWhole : List Char → Option (List Char × List Char)
  | '0' :: cs => some (['0'], cs)
  | cs => readDigits cs

/-- Reads a point and the digits after it, if there is a point. -/
def readFraction : List Char → Option (List Char × List Char)
  | '.' :: cs => do
    let (digits, cs) ← readDigits cs
    return ('.' :: digits, cs)
  | cs => some ([], cs)

/-- Reads a power of ten, if there is one. -/
def readExponent : List Char → Option (List Char × List Char)
  | c :: cs =>
    if c == 'e' || c == 'E' then
      match cs with
      | s :: ds =>
        if s == '+' || s == '-' then do
          let (digits, ds) ← readDigits ds
          return (c :: s :: digits, ds)
        else do
          let (digits, ds) ← readDigits cs
          return (c :: digits, ds)
      | [] => none
    else some ([], c :: cs)
  | [] => some ([], [])

/-- Reads a number literal. -/
def readNumber (cs : List Char) : Option (String × List Char) := do
  let (sign, cs) := match cs with
    | '-' :: cs => (['-'], cs)
    | cs => ([], cs)
  let (whole, cs) ← readWhole cs
  let (fraction, cs) ← readFraction cs
  let (exponent, cs) ← readExponent cs
  return (String.ofList (sign ++ whole ++ fraction ++ exponent), cs)

-- -----------------------------------------------------------------------
-- Values
-- -----------------------------------------------------------------------

mutual

/-- Reads a value. -/
def readValue : Nat → List Char → Option (Json × List Char)
  | 0, _ => none
  | fuel + 1, cs =>
    match skipSpace cs with
    | 'n' :: 'u' :: 'l' :: 'l' :: cs => some (.null, cs)
    | 't' :: 'r' :: 'u' :: 'e' :: cs => some (.bool true, cs)
    | 'f' :: 'a' :: 'l' :: 's' :: 'e' :: cs => some (.bool false, cs)
    | '"' :: cs => do
      let (s, cs) ← readString [] cs
      return (.str s, cs)
    | '[' :: cs =>
      match skipSpace cs with
      | ']' :: cs => some (.arr [], cs)
      | cs => do
        let (xs, cs) ← readElements fuel cs
        return (.arr xs, cs)
    | '\x7b' :: cs =>
      match skipSpace cs with
      | '\x7d' :: cs => some (.obj [], cs)
      | cs => do
        let (fields, cs) ← readFields fuel cs
        return (.obj fields, cs)
    | cs => do
      let (literal, cs) ← readNumber cs
      return (.number literal, cs)

/-- Reads the elements of an array up to its bracket. -/
def readElements : Nat → List Char → Option (List Json × List Char)
  | 0, _ => none
  | fuel + 1, cs => do
    let (x, cs) ← readValue fuel cs
    match skipSpace cs with
    | ']' :: cs => return ([x], cs)
    | ',' :: cs => do
      let (xs, cs) ← readElements fuel cs
      return (x :: xs, cs)
    | _ => none

/-- Reads the fields of an object up to its brace. -/
def readFields : Nat → List Char → Option (List (String × Json) × List Char)
  | 0, _ => none
  | fuel + 1, cs =>
    match skipSpace cs with
    | '"' :: cs => do
      let (name, cs) ← readString [] cs
      match skipSpace cs with
      | ':' :: cs => do
        let (x, cs) ← readValue fuel cs
        match skipSpace cs with
        | '\x7d' :: cs => return ([(name, x)], cs)
        | ',' :: cs => do
          let (fields, cs) ← readFields fuel cs
          return ((name, x) :: fields, cs)
        | _ => none
      | _ => none
    | _ => none

end

/-- Reads a whole text as one document. -/
def parse? (text : String) : Option Json :=
  let cs := text.toList
  match readValue (2 * cs.length + 2) cs with
  | some (j, rest) => if (skipSpace rest).isEmpty then some j else none
  | none => none

end Wordstack.Json
