-- SUMMARY: JSON documents, written on one line or indented.

/-!
# JSON documents

Numbers and strings are kept as they are written, so that writing and reading a
document leave them alone: a number is its literal, and a string or the name of a
field is what stands between its quotes, escapes included. An object is the list of
its fields in order.
-/

namespace Wordstack

inductive Json where
  | null
  | bool (b : Bool)
  | number (literal : String)
  | str (written : String)
  | arr (elements : List Json)
  | obj (fields : List (String × Json))
deriving Repr

namespace Json

/-- A count as a number literal. -/
def nat (n : Nat) : Json := .number (String.ofList (Nat.toDigits 10 n))

-- -----------------------------------------------------------------------
-- Strings
-- -----------------------------------------------------------------------

/-- A character of a string: quotes, backslashes and control characters are
escaped, everything else stands for itself. -/
def escape (c : Char) : List Char :=
  match c with
  | '"' => ['\\', '"']
  | '\\' => ['\\', '\\']
  | '\n' => ['\\', 'n']
  | '\r' => ['\\', 'r']
  | '\t' => ['\\', 't']
  | '\x08' => ['\\', 'b']
  | '\x0c' => ['\\', 'f']
  | c =>
    if c.toNat < 0x20 then
      ['\\', 'u', '0', '0', Nat.digitChar (c.toNat / 16), Nat.digitChar (c.toNat % 16)]
    else [c]

/-- How a text is written between quotes. -/
def escaped (s : String) : String := String.ofList (s.toList.flatMap escape)

/-- A text as a string. -/
def text (s : String) : Json := .str (escaped s)

/-- An object with the given names of its fields. -/
def record (fields : List (String × Json)) : Json :=
  .obj (fields.map fun (name, x) => (escaped name, x))

/-- Puts the quotes around a written string. -/
def writeString (written : String) : List Char := '"' :: written.toList ++ ['"']

-- -----------------------------------------------------------------------
-- On one line
-- -----------------------------------------------------------------------

mutual

/-- Writes a document without any blanks. -/
def write : Json → List Char
  | .null => ['n', 'u', 'l', 'l']
  | .bool true => ['t', 'r', 'u', 'e']
  | .bool false => ['f', 'a', 'l', 's', 'e']
  | .number literal => literal.toList
  | .str written => writeString written
  | .arr xs => '[' :: writeElements xs ++ [']']
  | .obj fields => '\x7b' :: writeFields fields ++ ['\x7d']

def writeElements : List Json → List Char
  | [] => []
  | [x] => write x
  | x :: xs => write x ++ ',' :: writeElements xs

def writeFields : List (String × Json) → List Char
  | [] => []
  | [(name, x)] => writeString name ++ ':' :: write x
  | (name, x) :: fields => writeString name ++ ':' :: write x ++ ',' :: writeFields fields

end

/-- The text of a document on one line. -/
def compact (j : Json) : String := String.ofList (write j)

-- -----------------------------------------------------------------------
-- Indented
-- -----------------------------------------------------------------------

/-- Starts a line at a depth, two spaces for each level. -/
def newline (depth : Nat) : List Char := '\n' :: List.replicate (2 * depth) ' '

mutual

/-- Writes a document that stands at a depth, with a line for each element and each
field. Empty arrays and objects stay on their line. -/
def writeIndented (depth : Nat) : Json → List Char
  | .arr (x :: xs) => '[' :: indentedElements (depth + 1) (x :: xs) ++ newline depth ++ [']']
  | .obj (f :: fs) =>
    '\x7b' :: indentedFields (depth + 1) (f :: fs) ++ newline depth ++ ['\x7d']
  | .null => ['n', 'u', 'l', 'l']
  | .bool true => ['t', 'r', 'u', 'e']
  | .bool false => ['f', 'a', 'l', 's', 'e']
  | .number literal => literal.toList
  | .str written => writeString written
  | .arr [] => ['[', ']']
  | .obj [] => ['\x7b', '\x7d']

def indentedElements (depth : Nat) : List Json → List Char
  | [] => []
  | [x] => newline depth ++ writeIndented depth x
  | x :: xs => newline depth ++ writeIndented depth x ++ ',' :: indentedElements depth xs

def indentedFields (depth : Nat) : List (String × Json) → List Char
  | [] => []
  | [(name, x)] => newline depth ++ writeString name ++ ':' :: ' ' :: writeIndented depth x
  | (name, x) :: fields =>
    newline depth ++ writeString name ++ ':' :: ' ' :: writeIndented depth x
      ++ ',' :: indentedFields depth fields

end

/-- The text of a document that stands at a depth of an indented one. -/
def indented (j : Json) (depth : Nat) : String := String.ofList (writeIndented depth j)

end Json

end Wordstack
