-- SUMMARY: Reading configuration files in TOML: values, keys, and the statements on their lines.
import Wordstack.Toml.Dates
import Wordstack.Toml.Numbers
import Wordstack.Toml.Strings
import Wordstack.Toml.Tables

/-!
# Reading configuration files

A file is a sequence of lines, each of which is blank, a comment, the header of a
table, or a key with its value. Values are strings, integers, floats, truth values,
dates, arrays and tables in braces. A reader takes characters off the front of a text
and gives what it read and the rest.
-/

namespace Wordstack.Toml

/-- How deep arrays and tables in braces may nest, and how many parts a key may have. -/
def maxDepth : Nat := 79

-- -----------------------------------------------------------------------
-- Truth values, numbers and dates
-- -----------------------------------------------------------------------

/-- Whether a character ends a value that is not in quotes or brackets. -/
def endsScalar (c : Char) : Bool := isSpace c || c ∈ ['\n', '\r', ',', ']', '\x7d', '#']

/-- A truth value or a number. An integer out of range is not a float instead. -/
def scalar? (cs : List Char) : Option RawValue :=
  if cs = ['t', 'r', 'u', 'e'] then some (.bool true)
  else if cs = ['f', 'a', 'l', 's', 'e'] then some (.bool false)
  else if (integer? cs).isSome then (int? cs).map .int
  else (float? cs).map .float

/-- Reads a value that is not in quotes or brackets. A single blank may stand between a
date and a time. -/
def readScalar (cs : List Char) : Option (RawValue × List Char) :=
  let scalar := cs.takeWhile (!endsScalar ·)
  let rest := cs.dropWhile (!endsScalar ·)
  match dateTime? scalar with
  | none => (scalar? scalar).map (·, rest)
  | some text =>
    match readDate scalar, rest with
    | some (_, []), ' ' :: next =>
      match offsetTime? (next.takeWhile (!endsScalar ·)) with
      | some time =>
        some (.text (String.ofList (text ++ 'T' :: time)), next.dropWhile (!endsScalar ·))
      | none => some (.text (String.ofList text), rest)
    | _, _ => some (.text (String.ofList text), rest)

-- -----------------------------------------------------------------------
-- Keys
-- -----------------------------------------------------------------------

def isBareKeyChar (c : Char) : Bool := c.isAlphanum || c == '_' || c == '-'

/-- Reads one part of a key, bare or between quotes. -/
def readKeyPart : List Char → Option (String × List Char)
  | '"' :: cs => readBasic [] cs
  | '\x27' :: cs => readLiteral cs
  | cs =>
    let key := cs.takeWhile isBareKeyChar
    if key.isEmpty then none else some (String.ofList key, cs.dropWhile isBareKeyChar)

/-- Reads a key of at most `room` parts with the blanks around it. -/
def readKey : Nat → List Char → Option (List String × List Char)
  | 0, _ => none
  | room + 1, cs =>
    match readKeyPart (skipSpace cs) with
    | none => none
    | some (part, rest) =>
      match skipSpace rest with
      | '.' :: rest => (readKey room rest).map fun (parts, rest) => (part :: parts, rest)
      | rest => some ([part], rest)

-- -----------------------------------------------------------------------
-- Values
-- -----------------------------------------------------------------------

/-- Reads a key with its value, which `read` reads. -/
def readPair (read : List Char → Option (RawValue × List Char)) (cs : List Char) :
    Option (List String × RawValue × List Char) := do
  let (path, rest) ← readKey maxDepth cs
  match rest with
  | '=' :: rest =>
    let (v, rest) ← read (skipSpace rest)
    return (path, v, rest)
  | _ => none

/-- Skips blanks, line breaks and comments between the elements of an array. -/
def skipBetween (inComment : Bool) : List Char → List Char
  | [] => []
  | '\r' :: '\n' :: cs => skipBetween false cs
  | c :: cs =>
    if c == '\n' then skipBetween false cs
    else if inComment then if isControl c then c :: cs else skipBetween true cs
    else if isSpace c then skipBetween false cs
    else if c == '#' then skipBetween true cs
    else c :: cs

/-- Reads the elements of an array up to its bracket. A comma may follow the last
one. -/
def readElements (read : List Char → Option (RawValue × List Char)) :
    Nat → List Char → Option (List Char)
  | 0, _ => none
  | fuel + 1, cs =>
    match skipBetween false cs with
    | ']' :: rest => some rest
    | cs =>
      match read cs with
      | none => none
      | some (_, rest) =>
        match skipBetween false rest with
        | ']' :: rest => some rest
        | ',' :: rest => readElements read fuel rest
        | _ => none

/-- Reads the fields of a table up to its brace. -/
def readFields (read : List Char → Option (RawValue × List Char)) (entries : Entries) :
    Nat → List Char → Option (Entries × List Char)
  | 0, _ => none
  | fuel + 1, cs => do
    let (path, v, rest) ← readPair read cs
    let entries ← entries.assign v path
    match skipSpace rest with
    | '\x7d' :: rest => some (entries, rest)
    | ',' :: rest => readFields read entries fuel rest
    | _ => none

/-- Reads a table after its opening brace. -/
def readBraced (read : List Char → Option (RawValue × List Char)) (cs : List Char) :
    Option (RawValue × List Char) :=
  match skipSpace cs with
  | '\x7d' :: rest => some (.table true, rest)
  | cs => (readFields read [] (cs.length + 1) cs).map fun (_, rest) => (.table false, rest)

/-- Reads a value whose brackets nest at most `room` deep. -/
def readValue : Nat → List Char → Option (RawValue × List Char)
  | 0, cs =>
    match cs with
    | '"' :: _ | '\x27' :: _ => (readString cs).map fun (s, rest) => (.text s, rest)
    | '[' :: _ | '\x7b' :: _ => none
    | cs => readScalar cs
  | room + 1, cs =>
    match cs with
    | '"' :: _ | '\x27' :: _ => (readString cs).map fun (s, rest) => (.text s, rest)
    | '[' :: cs =>
      (readElements (readValue room) (cs.length + 1) cs).map fun rest => (.list, rest)
    | '\x7b' :: cs => readBraced (readValue room) cs
    | cs => readScalar cs

-- -----------------------------------------------------------------------
-- Lines and files
-- -----------------------------------------------------------------------

/-- The text after the end of a line, before which a comment may stand. -/
def endLine (cs : List Char) : Option (List Char) :=
  let rest := match skipSpace cs with
    | '#' :: comment => comment.dropWhile (!isControl ·)
    | rest => rest
  if rest.isEmpty then some [] else afterBreak? rest

/-- Reads a header, a list's or a single table's, or a key with its value. -/
def readStatement : List Char → Option (Statement × List Char)
  | '[' :: '[' :: cs => do
    match ← readKey maxDepth cs with
    | (path, ']' :: ']' :: rest) => some (.element path, rest)
    | _ => none
  | '[' :: cs => do
    match ← readKey maxDepth cs with
    | (path, ']' :: rest) => some (.header path, rest)
    | _ => none
  | cs => (readPair (readValue maxDepth) cs).map fun (path, v, rest) => (.assign path v, rest)

/-- Reads the statements of a text, one on a line. -/
def readStatements : Nat → List Char → Option (List Statement)
  | 0, _ => none
  | _ + 1, [] => some []
  | fuel + 1, cs =>
    match endLine cs with
    | some rest => readStatements fuel rest
    | none => do
      let (statement, rest) ← readStatement (skipSpace cs)
      let statements ← readStatements fuel (← endLine rest)
      return statement :: statements

/-- The keys and values of a file, in order. -/
def parse? (text : String) : Option (List (String × RawValue)) := do
  let statements ← readStatements (text.length + 1) text.toList
  let document ← statements.foldlM Document.push {}
  return document.values

end Wordstack.Toml
