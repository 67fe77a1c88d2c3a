-- SUMMARY: Lexemes: the words and quoted strings of a source text, and the token each word stands for.
import Wordstack.Error
import Wordstack.Number.Decimal
import Wordstack.Text.Blank

/-!
# Lexemes

A source text is split at blanks into words. A word that starts with a quote opens
a string, which goes on over the following words, joined by single spaces, until
one ends with the same quote; a backslash right before that quote keeps the string
open. Every other word stands for itself.
-/

namespace Wordstack

/-- A bare word, or a string without its quotes. -/
inductive Lexeme where
  | word (w : String)
  | quoted (s : String)
deriving DecidableEq, Repr

-- -----------------------------------------------------------------------
-- Classifying words
-- -----------------------------------------------------------------------

namespace Token

/-- The number that a word spells. -/
def number? (word : String) : Option Float :=
  (Decimal.parse? word.toList).map Decimal.toFloat

/-- The token of a bare word. The first that fits is taken of: operator, keyword,
type, truth value, number; any other word is an identifier. -/
def ofWord (word : String) : Token :=
  match Operator.ofWord? word with
  | some o => .op o
  | none =>
    match Keyword.ofWord? word with
    | some k => .keyword k
    | none =>
      match TypeName.ofWord? word with
      | some t => .type t
      | none =>
        if word = "true" then .bool true
        else if word = "false" then .bool false
        else
          match number? word with
          | some v => .num .num v
          | none => .ident word

end Token

namespace Lexeme

def token : Lexeme → Token
  | .word w => Token.ofWord w
  | .quoted s => .str s

/-- Whether the lexeme is this keyword as a bare word. -/
def isKeyword (lexeme : Lexeme) (keyword : Keyword) : Bool :=
  match lexeme with
  | .word w => w == keyword.spelling
  | .quoted _ => false

-- -----------------------------------------------------------------------
-- Strings over several words
-- -----------------------------------------------------------------------

def isQuote (c : Char) : Bool := c == '"' || c == '\x27'

/-- A string whose closing quote has not come yet. Its characters so far, after
the opening quote, are kept in reverse. -/
structure OpenString where
  start : List Char
  quote : Char
  reversed : List Char
deriving DecidableEq, Repr

namespace OpenString

/-- Whether the characters so far end with the closing quote. -/
def isClosed (s : OpenString) : Bool :=
  match s.reversed with
  | c :: before => c == s.quote && before.head? != some '\\'
  | [] => false

/-- Goes on with the next word. -/
def append (s : OpenString) (word : List Char) : OpenString :=
  { s with reversed := word.reverse ++ ' ' :: s.reversed }

/-- The string without its closing quote. -/
def content (s : OpenString) : String := String.ofList s.reversed.tail.reverse

end OpenString

/-- The lexemes found so far, the last one first, and the string still open. -/
structure Scan where
  found : List Lexeme := []
  pending : Option OpenString := none

namespace Scan

/-- Takes an open string as finished if its closing quote is there. -/
def settle (found : List Lexeme) (s : OpenString) : Scan :=
  if s.isClosed then { found := .quoted s.content :: found } else { found, pending := some s }

/-- Takes in one more word. -/
def push (scan : Scan) (word : List Char) : Scan :=
  match scan.pending, word with
  | some s, _ => settle scan.found (s.append word)
  | none, [] => scan
  | none, c :: cs =>
    if isQuote c then settle scan.found { start := word, quote := c, reversed := cs.reverse }
    else { scan with found := .word (String.ofList word) :: scan.found }

/-- What was found once the words have run out. -/
def finish (scan : Scan) : Except Error (List Lexeme) :=
  match scan.pending with
  | none => .ok scan.found.reverse
  | some s => .error (.unterminatedString (String.ofList s.start))

end Scan

-- -----------------------------------------------------------------------
-- Source texts
-- -----------------------------------------------------------------------

/-- Removes every carriage return, so that it joins what stands around it. -/
def dropReturns (source : String) : String :=
  String.ofList (source.toList.filter (· != '\r'))

/-- The words of a source text. -/
def words (source : String) : List String :=
  (Text.splitWords source.toList).map String.ofList

/-- The lexemes of a source text. -/
def scan (source : String) : Except Error (List Lexeme) :=
  ((Text.splitWords source.toList).foldl Scan.push {}).finish

end Lexeme

end Wordstack
