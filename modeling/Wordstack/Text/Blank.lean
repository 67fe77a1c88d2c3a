-- SUMMARY: Blank characters, the words between them, and blank margins.

/-!
# Blanks and words

Blank characters are those with the Unicode property `White_Space`. Words are the
maximal runs of other characters.
-/

namespace Wordstack.Text

/-- Whether a character is blank. -/
def isBlank (c : Char) : Bool :=
  let n := c.toNat
  (0x9 ≤ n && n ≤ 0xd) || n == 0x20 || n == 0x85 || n == 0xa0 || n == 0x1680
    || (0x2000 ≤ n && n ≤ 0x200a) || n == 0x2028 || n == 0x2029 || n == 0x202f
    || n == 0x205f || n == 0x3000

/-- Puts a word in front of others, unless it is empty. -/
def consWord (word : List Char) (words : List (List Char)) : List (List Char) :=
  if word.isEmpty then words else word :: words

/-- One more character in front of a text whose first word, if the text starts
with one, has not been closed yet. -/
def splitStep (c : Char) (state : List Char × List (List Char)) : List Char × List (List Char) :=
  if isBlank c then ([], consWord state.1 state.2) else (c :: state.1, state.2)

/-- The maximal runs of characters that are not blank, in order. -/
def splitWords (cs : List Char) : List (List Char) :=
  let (word, words) := cs.foldr splitStep ([], [])
  consWord word words

/-- Whether a text has no character that is not blank. -/
def isAllBlank (s : String) : Bool := s.toList.all isBlank

/-- Drops blank characters from both ends. -/
def trim (cs : List Char) : List Char :=
  ((cs.dropWhile isBlank).reverse.dropWhile isBlank).reverse

end Wordstack.Text
