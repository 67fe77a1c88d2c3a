-- SUMMARY: Files that supply variables of the environment: their lines, the names and values on them.
import Wordstack.Settings.Environment
import Wordstack.Text.Blank
import Wordstack.Text.Letter

/-!
# Files of variables

A file offers values to variables that are not set yet, one on each line. A line goes on
after a line break that stands between quotes. The file counts up to the first line
that makes no sense: the variables before it are supplied all the same. A value may refer
to other variables, so it is read to its parts first, and these are put together when it
is supplied.
-/

namespace Wordstack.Environment

-- -----------------------------------------------------------------------
-- Lines
-- -----------------------------------------------------------------------

/-- Cuts bytes after every line break. -/
def cutLines (line : ByteArray) : List UInt8 → List ByteArray
  | [] => if line.isEmpty then [] else [line]
  | b :: bs =>
    if b == 10 then line.push b :: cutLines ByteArray.empty bs else cutLines (line.push b) bs

/-- The lines of a file with their line breaks, up to the first that is not text. The
mark that tells the order of its bytes is dropped from the front. -/
def textLines (content : ByteArray) : List (List Char) :=
  let bytes := match content.toList with
    | 0xef :: 0xbb :: 0xbf :: bytes => bytes
    | bytes => bytes
  let lines := (cutLines ByteArray.empty bytes).map String.fromUTF8?
  (lines.takeWhile Option.isSome).filterMap (·.map String.toList)

/-- What the characters of a line stand in. -/
inductive Place where
  | plain
  | escaped
  | single
  | singleEscaped
  | double
  | doubleEscaped
  /-- After a first blank, where a comment may start. -/
  | blank
deriving DecidableEq, Repr

namespace Place

/-- The place after a character outside of quotes. -/
def opened (c : Char) : Place :=
  match c with
  | '\\' => .escaped
  | '\x27' => .single
  | '"' => .double
  | _ => .plain

/-- The place after a character. -/
def next : Place → Char → Place
  | .plain, c => if Text.isBlank c && c != '\n' && c != '\r' then .blank else opened c
  | .blank, c => opened c
  | .escaped, _ => .plain
  | .single, c => if c == '\\' then .singleEscaped else if c == '\x27' then .plain else .single
  | .singleEscaped, _ => .single
  | .double, c => if c == '\\' then .doubleEscaped else if c == '"' then .plain else .double
  | .doubleEscaped, _ => .double

end Place

/-- Follows the characters of a line, which are kept in reverse. A comment cuts the
line off, and with it all that may be open. -/
def follow (place : Place) (done : List Char) : List Char → Place × List Char
  | [] => (place, done)
  | c :: cs =>
    if place = .blank && c == '#' then (.plain, done) else follow (place.next c) (c :: done) cs

/-- A line in reverse without its line break. -/
def dropBreak : List Char → List Char
  | '\n' :: '\r' :: cs => cs
  | '\n' :: cs => cs
  | cs => cs

/-- Joins lines that go on; `done` is in reverse what has been read of the present one.
One that is still open at the end is dropped. -/
def joinLines (place : Place) (done : List Char) : List (List Char) → List (List Char)
  | [] => []
  | line :: lines =>
    if done.isEmpty && (line.dropWhile Text.isBlank).head? = some '#' then joinLines .plain [] lines
    else
      match follow place done line with
      | (.plain, done) => (dropBreak done).reverse :: joinLines .plain [] lines
      | (place, done) => joinLines place done lines

-- -----------------------------------------------------------------------
-- Values
-- -----------------------------------------------------------------------

/-- The quotes that a character of a value stands in. -/
inductive Quoting where
  | bare
  | single
  | double
  /-- After the value, where only a comment may follow. -/
  | after
deriving DecidableEq, Repr

/-- What a character of a value belongs to. Names are kept in reverse. -/
inductive Role where
  | text
  | escape
  /-- The name of a variable after a dollar sign. -/
  | name (letters : List Char)
  /-- The name of a variable between braces. -/
  | braced (letters : List Char)
deriving DecidableEq, Repr

/-- The character that a backslash protects. -/
def protected? (c : Char) : Option Char :=
  if c == 'n' then some '\n'
  else if c ∈ ['\\', '\x27', '"', '$', ' '] then some c
  else none

/-- A part of a value. -/
inductive Part where
  | char (c : Char)
  /-- The value of another variable. -/
  | reference (name : String)
deriving DecidableEq, Repr

namespace Part

/-- The reference to the variable whose name has been read in reverse. -/
def ofLetters (letters : List Char) : Part := .reference (String.ofList letters.reverse)

/-- The characters of a part. A variable that is not set has none. -/
def expand (env : Environment) : Part → List Char
  | .char c => [c]
  | .reference name => ((env.get? name).getD "").toList

end Part

/-- Reads a value to the end of its line; its parts so far are kept in reverse. Quotes may
start and end anywhere in it. -/
def readValue (quoting : Quoting) (role : Role) (done : List Part) :
    List Char → Option (List Part)
  | [] =>
    match quoting, role with
    | .single, _ | .double, _ | _, .braced _ => none
    | _, .name letters => some (Part.ofLetters letters :: done).reverse
    | _, _ => some done.reverse
  | c :: cs =>
    match quoting, role with
    | .after, _ =>
      if c == ' ' || c == '\t' then readValue .after .text done cs
      else if c == '#' then some done.reverse
      else none
    | quoting, .escape =>
      match protected? c with
      | some c => readValue quoting .text (.char c :: done) cs
      | none => none
    | .single, _ =>
      if c == '\x27' then readValue .bare .text done cs
      else readValue .single .text (.char c :: done) cs
    | quoting, .name letters =>
      if Text.isLetterOrDigit c then readValue quoting (.name (c :: letters)) done cs
      else if c == '\x7b' && letters.isEmpty then readValue quoting (.braced []) done cs
      else
        let done := .ofLetters letters :: done
        if c == '$' then readValue quoting (.name []) done cs
        else readValue quoting .text (.char c :: done) cs
    | quoting, .braced letters =>
      if c == '\x7d' then readValue quoting .text (.ofLetters letters :: done) cs
      else readValue quoting (.braced (c :: letters)) done cs
    | quoting, .text =>
      if c == '$' then readValue quoting (.name []) done cs
      else if c == '\\' then readValue quoting .escape done cs
      else if quoting = .double then
        if c == '"' then readValue .bare .text done cs
        else readValue .double .text (.char c :: done) cs
      else if c == '\x27' then readValue .single .text done cs
      else if c == '"' then readValue .double .text done cs
      else if c == ' ' || c == '\t' then readValue .after .text done cs
      else readValue .bare .text (.char c :: done) cs

-- -----------------------------------------------------------------------
-- Variables
-- -----------------------------------------------------------------------

def isNameStart (c : Char) : Bool := c.isAlpha || c == '_'

def isNameChar (c : Char) : Bool := c.isAlphanum || c == '_' || c == '.'

/-- Reads a name and skips the blanks after it. -/
def readName : List Char → Option (List Char × List Char)
  | [] => none
  | c :: cs =>
    if isNameStart c then
      some (c :: cs.takeWhile isNameChar, (cs.dropWhile isNameChar).dropWhile Text.isBlank)
    else none

/-- A value that a line offers to a variable. -/
structure Offer where
  name : String
  value : List Part
deriving DecidableEq, Repr

/-- Reads the value after the equals sign. -/
def readAssigned (name : List Char) (cs : List Char) : Option Offer :=
  let cs := cs.dropWhile Text.isBlank
  let value? := if cs.head? = some '#' then some [] else readValue .bare .text [] cs
  value?.map fun value => { name := String.ofList name, value }

/-- Reads a line: nothing, or a variable with its value. The word `export` may stand
in front. -/
def readLine (line : List Char) : Option (Option Offer) :=
  match Text.trim line with
  | [] | '#' :: _ => some none
  | cs => do
    let (name, rest) ← readName cs
    match rest with
    | '=' :: rest => (readAssigned name rest).map some
    | rest =>
      if String.ofList name = "export" then
        match ← readName rest with
        | (name, '=' :: rest) => (readAssigned name rest).map some
        | _ => none
      else none

/-- What some lines offer, up to the first that cannot be read. -/
def readOffers : List (List Char) → List Offer
  | [] => []
  | line :: lines =>
    match readLine line with
    | none => []
    | some none => readOffers lines
    | some (some offer) => offer :: readOffers lines

/-- What a file offers. -/
def offers (content : ByteArray) : List Offer :=
  readOffers (joinLines .plain [] (textLines content))

/-- The text that is offered, with the values that the variables it refers to have by then. -/
def Offer.text (offer : Offer) (env : Environment) : String :=
  String.ofList (offer.value.flatMap (Part.expand env))

/-- Takes an offer, unless the variable is set. -/
def accept (env : Environment) (offer : Offer) : Environment :=
  env.supply offer.name (offer.text env)

/-- Takes offers one after the other. -/
def acceptAll (env : Environment) (offers : List Offer) : Environment := offers.foldl accept env

end Wordstack.Environment
