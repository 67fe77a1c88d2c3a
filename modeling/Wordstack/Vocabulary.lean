-- SUMMARY: The reserved words of the language: operators, structural keywords and type names, with their spellings.

/-!
# Reserved words

Three closed families of words. Each family knows its members' spellings and
finds a member by its spelling.
-/

namespace Wordstack

-- -----------------------------------------------------------------------
-- Operators
-- -----------------------------------------------------------------------

/-- The operators on the data stack. -/
inductive Operator where
  | add | sub | mul | div | mod
  | max | min
  | eq | ne | gt | lt | ge | le
  | print | ret
  | copy | drop | swap | rot | carry
  | sqrt | is | assert
deriving DecidableEq, Repr

namespace Operator

def all : List Operator :=
  [.add, .sub, .mul, .div, .mod, .max, .min, .eq, .ne, .gt, .lt, .ge, .le, .print, .ret,
    .copy, .drop, .swap, .rot, .carry, .sqrt, .is, .assert]

def spelling : Operator → String
  | .add => "+"
  | .sub => "-"
  | .mul => "*"
  | .div => "/"
  | .mod => "%"
  | .max => "max"
  | .min => "min"
  | .eq => "=="
  | .ne => "!="
  | .gt => ">"
  | .lt => "<"
  | .ge => ">="
  | .le => "<="
  | .print => "print"
  | .ret => "ret"
  | .copy => "copy"
  | .drop => "drop"
  | .swap => "swap"
  | .rot => "rot"
  | .carry => "carry"
  | .sqrt => "sqrt"
  | .is => "is"
  | .assert => "assert"

/-- The operator that a word spells. -/
def ofWord? (word : String) : Option Operator :=
  all.find? (·.spelling == word)

end Operator

-- -----------------------------------------------------------------------
-- Structural keywords
-- -----------------------------------------------------------------------

/-- The words that shape blocks and definitions. -/
inductive Keyword where
  | end_ | if_ | iff | else_ | while_ | do_ | fun_ | as_
deriving DecidableEq, Repr

namespace Keyword

def all : List Keyword := [.end_, .if_, .iff, .else_, .while_, .do_, .fun_, .as_]

def spelling : Keyword → String
  | .end_ => "end"
  | .if_ => "if"
  | .iff => "iff"
  | .else_ => "else"
  | .while_ => "while"
  | .do_ => "do"
  | .fun_ => "fun"
  | .as_ => "as"

/-- The keyword that a word spells. -/
def ofWord? (word : String) : Option Keyword :=
  all.find? (·.spelling == word)

/-- Whether the keyword opens a block that an `end` closes. -/
def opensBlock : Keyword → Bool
  | .if_ | .iff | .while_ => true
  | _ => false

end Keyword

-- -----------------------------------------------------------------------
-- Types
-- -----------------------------------------------------------------------

/-- The types that a parameter can be declared with. -/
inductive TypeName where
  | num | int | float | double | string | bool
deriving DecidableEq, Repr

namespace TypeName

def all : List TypeName := [.num, .int, .float, .double, .string, .bool]

def spelling : TypeName → String
  | .num => "num"
  | .int => "int"
  | .float => "float"
  | .double => "double"
  | .string => "string"
  | .bool => "bool"

/-- The type that a word spells. -/
def ofWord? (word : String) : Option TypeName :=
  all.find? (·.spelling == word)

end TypeName

end Wordstack
