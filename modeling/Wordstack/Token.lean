-- SUMMARY: Tokens, which are both the words of a function's body and the values on a data stack.
import Wordstack.Number.Text
import Wordstack.Vocabulary

/-!
# Tokens and values

A token is what a body consists of and what a data stack holds. Numbers carry a
kind besides their value: a literal has the kind `num`, and the other kinds come
from binding a number to a parameter of that type.
-/

namespace Wordstack

/-- The kind of a number. -/
inductive NumKind where
  | num | int | float | double
deriving DecidableEq, Repr

/-- A classified word, or a value on a stack. -/
inductive Token where
  | op (o : Operator)
  | num (kind : NumKind) (v : Float)
  | str (s : String)
  | bool (b : Bool)
  | type (t : TypeName)
  | keyword (k : Keyword)
  | ident (name : String)
deriving DecidableEq, Repr

/-- A data stack, its top first. -/
abbrev Stack := List Token

def NumKind.spelling : NumKind → String
  | .num => "num"
  | .int => "int"
  | .float => "float"
  | .double => "double"

namespace Token

/-- The name of the token's kind in diagnostics. -/
def kindName : Token → String
  | .op _ => "operator"
  | .num kind _ => kind.spelling
  | .str _ => "string"
  | .bool _ => "bool"
  | .type _ => "type"
  | .keyword _ => "keyword"
  | .ident _ => "identifier"

/-- The text that `print` and diagnostics show. -/
def text : Token → String
  | .op o => o.spelling
  | .num _ v => Number.text v
  | .str s => s
  | .bool b => if b then "true" else "false"
  | .type t => t.spelling
  | .keyword k => k.spelling
  | .ident name => name

/-- Whether `print` takes the value. -/
def isPrintable : Token → Bool
  | .num .. | .str _ | .bool _ => true
  | _ => false

/-- Equality as the operators see it: numbers compare by value, whatever their
kind, and everything else by being the same token. -/
def sameValue : Token → Token → Bool
  | .num _ a, .num _ b => a == b
  | a, b => decide (a = b)

end Token

-- -----------------------------------------------------------------------
-- Fitting a value to a type
-- -----------------------------------------------------------------------

/-- The value that a parameter of this type binds, if the value fits. Numbers take
the declared kind, except that `num` keeps the kind they have; `int` refuses
fractions and whatever is not finite. -/
def TypeName.accept (type : TypeName) (value : Token) : Option Token :=
  match type, value with
  | .num, .num _ _ => some value
  | .int, .num _ v => if Number.isWhole v then some (.num .int v) else none
  | .float, .num _ v => some (.num .float v)
  | .double, .num _ v => some (.num .double v)
  | .string, .str _ => some value
  | .bool, .bool _ => some value
  | _, _ => none

end Wordstack
