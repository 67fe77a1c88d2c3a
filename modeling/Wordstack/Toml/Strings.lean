-- SUMMARY: Reading the strings of configuration files, on one line or on several.
import Wordstack.Json.Literal

/-!
# Strings of configuration files

Strings stand between double quotes, where a backslash escapes, or between single
quotes, where nothing is escaped. Between three quotes they may have several lines. A
reader takes characters off the front of a text and gives what it read and the rest.
-/

namespace Wordstack.Toml

def isSpace (c : Char) : Bool := c == ' ' || c == '\t'

def skipSpace (cs : List Char) : List Char := cs.dropWhile isSpace

/-- Whether a character must not stand in a line as it is. -/
def isControl (c : Char) : Bool := (c.toNat < 0x20 && c != '\t') || c.toNat == 0x7f

/-- The text after a line break, if there is one. -/
def afterBreak? : List Char → Option (List Char)
  | '\n' :: cs => some cs
  | '\r' :: '\n' :: cs => some cs
  | _ => none

-- -----------------------------------------------------------------------
-- Escapes
-- -----------------------------------------------------------------------

/-- The character of a short escape. -/
def unescape? : Char → Option Char
  | 'b' => some '\x08'
  | 't' => some '\t'
  | 'n' => some '\n'
  | 'f' => some '\x0c'
  | 'r' => some '\r'
  | '"' => some '"'
  | '\\' => some '\\'
  | _ => none

/-- The character with a code point, which must not be half of a pair. -/
def charOfCode? (n : Nat) : Option Char := if n.isValidChar then some (Char.ofNat n) else none

/-- The character of an escape with four digits. -/
def shortCode? (a b c d : Char) : Option Char := (Json.hexUnit? a b c d).bind charOfCode?

/-- The character of an escape with eight digits. -/
def longCode? (a b c d e f g h : Char) : Option Char :=
  match Json.hexUnit? a b c d, Json.hexUnit? e f g h with
  | some high, some low => charOfCode? (high * 0x10000 + low)
  | _, _ => none

-- -----------------------------------------------------------------------
-- Strings on one line
-- -----------------------------------------------------------------------

/-- Reads a string after its opening double quote; its characters so far are kept in
reverse. -/
def readBasic (done : List Char) : List Char → Option (String × List Char)
  | [] => none
  | '"' :: cs => some (String.ofList done.reverse, cs)
  | '\\' :: 'u' :: a :: b :: c :: d :: cs =>
    match shortCode? a b c d with
    | some c => readBasic (c :: done) cs
    | none => none
  | '\\' :: 'U' :: a :: b :: c :: d :: e :: f :: g :: h :: cs =>
    match longCode? a b c d e f g h with
    | some c => readBasic (c :: done) cs
    | none => none
  | '\\' :: c :: cs =>
    match unescape? c with
    | some c => readBasic (c :: done) cs
    | none => none
  | c :: cs => if c == '\\' || isControl c then none else readBasic (c :: done) cs

/-- Reads a string after its opening single quote. -/
def readLiteral (cs : List Char) : Option (String × List Char) :=
  let content := cs.takeWhile (· != '\x27')
  match cs.dropWhile (· != '\x27') with
  | _ :: rest => if content.any isControl then none else some (String.ofList content, rest)
  | [] => none

-- -----------------------------------------------------------------------
-- Strings on several lines
-- -----------------------------------------------------------------------

/-- The text after a closing mark, and how many quotes before it belong to the string:
of a run of quotes the last three close it, and at most two stand before them. -/
def closing? (q : Char) : List Char → Option (Nat × List Char)
  | a :: b :: c :: cs =>
    if a == q && b == q && c == q then
      match cs with
      | d :: e :: cs =>
        if d == q && e == q then some (2, cs)
        else if d == q then some (1, e :: cs)
        else some (0, d :: e :: cs)
      | [d] => if d == q then some (1, []) else some (0, [d])
      | [] => some (0, [])
    else none
  | _ => none

/-- Whether a line break follows after blanks. -/
def endsLine (cs : List Char) : Bool := (afterBreak? (skipSpace cs)).isSome

/-- Reads a string of several lines after its opening double quotes. A backslash at the
end of a line joins it with the next one, and blanks are then skipped. -/
def readLongBasic (skipping : Bool) (done : List Char) : List Char → Option (String × List Char)
  | [] => none
  | '\r' :: '\n' :: cs => readLongBasic skipping (if skipping then done else '\n' :: done) cs
  | '\\' :: 'u' :: a :: b :: c :: d :: cs =>
    match shortCode? a b c d with
    | some c => readLongBasic false (c :: done) cs
    | none => none
  | '\\' :: 'U' :: a :: b :: c :: d :: e :: f :: g :: h :: cs =>
    match longCode? a b c d e f g h with
    | some c => readLongBasic false (c :: done) cs
    | none => none
  | '\\' :: c :: cs =>
    match unescape? c with
    | some c => readLongBasic false (c :: done) cs
    | none => if endsLine (c :: cs) then readLongBasic true done (c :: cs) else none
  | c :: cs =>
    match closing? '"' (c :: cs) with
    | some (n, rest) => some (String.ofList (List.replicate n '"' ++ done).reverse, rest)
    | none =>
      if skipping && (isSpace c || c == '\n') then readLongBasic true done cs
      else if c == '\\' || (isControl c && c != '\n') then none
      else readLongBasic false (c :: done) cs

/-- Reads a string of several lines after its opening single quotes. -/
def readLongLiteral (done : List Char) : List Char → Option (String × List Char)
  | [] => none
  | '\r' :: '\n' :: cs => readLongLiteral ('\n' :: done) cs
  | c :: cs =>
    match closing? '\x27' (c :: cs) with
    | some (n, rest) => some (String.ofList (List.replicate n '\x27' ++ done).reverse, rest)
    | none => if isControl c && c != '\n' then none else readLongLiteral (c :: done) cs

/-- Reads a string in any quotes. A line break right after three of them is dropped. -/
def readString : List Char → Option (String × List Char)
  | '"' :: '"' :: '"' :: cs => readLongBasic false [] ((afterBreak? cs).getD cs)
  | '\x27' :: '\x27' :: '\x27' :: cs => readLongLiteral [] ((afterBreak? cs).getD cs)
  | '"' :: cs => readBasic [] cs
  | '\x27' :: cs => readLiteral cs
  | _ => none

end Wordstack.Toml
