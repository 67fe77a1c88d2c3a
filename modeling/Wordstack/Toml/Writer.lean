-- SUMMARY: Strings of configuration files in the lightest quotes that can hold them.
import Wordstack.Toml.Strings

/-!
# Writing strings

Of the four ways to quote a string the first one is taken that needs no escapes:
double quotes, single quotes, three double quotes, three single quotes. What needs
escapes anyway is written between double quotes.
-/

namespace Wordstack.Toml

/-- Whether a string holds a control character that has to be escaped. -/
def hasControl (cs : List Char) : Bool := cs.any fun c => c != '\n' && isControl c

/-- Whether a string holds three or more of a character in a row. -/
def hasTriple (q : Char) : List Char → Bool
  | a :: b :: c :: cs => (a == q && b == q && c == q) || hasTriple q (b :: c :: cs)
  | _ => false

/-- An upper-case hexadecimal digit. -/
def hexChar (n : Nat) : Char := (Nat.digitChar n).toUpper

/-- A character between double quotes that is neither a quote nor a line break. -/
def escapeChar (c : Char) : List Char :=
  match c with
  | '\x08' => ['\\', 'b']
  | '\t' => ['\\', 't']
  | '\x0c' => ['\\', 'f']
  | '\r' => ['\\', 'r']
  | '\\' => ['\\', '\\']
  | c =>
    if isControl c then
      ['\\', 'u', '0', '0', hexChar (c.toNat / 16), hexChar (c.toNat % 16)]
    else [c]

/-- The inside of a string between double quotes. `run` counts the quotes written
just before; one more than `allowed` in a row is escaped. -/
def escape (multiline : Bool) (allowed run : Nat) : List Char → List Char
  | [] => []
  | '"' :: cs =>
    if run < allowed then '"' :: escape multiline allowed (run + 1) cs
    else '\\' :: '"' :: escape multiline allowed 0 cs
  | '\n' :: cs =>
    if multiline then '\n' :: escape multiline allowed 0 cs
    else '\\' :: 'n' :: escape multiline allowed 0 cs
  | c :: cs => escapeChar c ++ escape multiline allowed 0 cs

def basic (cs : List Char) : List Char := '"' :: escape false 0 0 cs ++ ['"']

def literal (cs : List Char) : List Char := '\x27' :: cs ++ ['\x27']

/-- A string of several lines starts on a line of its own. -/
def opening (q : Char) (cs : List Char) : List Char :=
  [q, q, q] ++ if cs.contains '\n' then ['\n'] else []

def multilineBasic (cs : List Char) : List Char :=
  opening '"' cs ++ escape true 2 0 cs ++ ['"', '"', '"']

def multilineLiteral (cs : List Char) : List Char :=
  opening '\x27' cs ++ cs ++ ['\x27', '\x27', '\x27']

/-- A string with its quotes. -/
def quote (s : String) : String :=
  let cs := s.toList
  let plain := !hasControl cs
  let oneLine := !cs.contains '\n'
  String.ofList <|
    if plain && oneLine && !cs.contains '\\' && !cs.contains '"' then basic cs
    else if plain && oneLine && !cs.contains '\x27' then literal cs
    else if plain && !cs.contains '\\' && !hasTriple '"' cs then multilineBasic cs
    else if plain && !hasTriple '\x27' cs then multilineLiteral cs
    else if oneLine then basic cs
    else multilineBasic cs

end Wordstack.Toml
