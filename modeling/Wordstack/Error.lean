-- SUMMARY: Everything that can go wrong in reading or running a program, with the text shown for it.
import Wordstack.Token

/-!
# Errors

One constructor for each cause. The wording stands in `Error.message` alone.
-/

namespace Wordstack

/-- Why a word cannot name a function. -/
inductive NameFault where
  | quoted
  | topLevel
  | reserved
  | firstChar
  | otherChar
deriving DecidableEq, Repr

/-- What an operator wanted to find on the stack. -/
inductive Wanted where
  | twoNumbersOrStrings
  | twoNumbers
  | valueAndType
  | number
deriving DecidableEq, Repr

/-- The stage of the work that an error belongs to. -/
inductive ErrorClass where
  | lexical
  | structural
  | execution
deriving DecidableEq, Repr

/-- The cause of a failure. -/
inductive Error where
  /-- No word closes the string that the word `start` opens. -/
  | unterminatedString (start : String)
  | missingFunctionName
  | invalidFunctionName (name : String) (fault : NameFault)
  | notAType (function word : String)
  | missingAs (function : String)
  | missingEnd (function : String)
  | unexpectedKeyword (function : String) (keyword : Keyword)
  | nestedFunction (function : String)
  | entryNotFound (entry : String)
  | stackUnderflow (op : Operator) (needed found : Nat)
  /-- The operands do not suit the operator; they are listed the deepest first. -/
  | typeMismatch (op : Operator) (wanted : Wanted) (operands : List Token)
  | assertionFailed (left right : Token)
  | notPrintable (value : Token)
  | missingArguments (function caller : String) (expected found : Nat)
  | argumentType (function : String) (index : Nat) (expected : TypeName) (value : Token)
  | noCondition (function : String) (keyword : Keyword)
  | undefinedBlock (name : String)
  | undefinedFunction (name : String)
  | frameLimit (limit : Nat)
  /-- The sink refused what was printed. -/
  | writeFailed (reason : String)
deriving DecidableEq, Repr

namespace NameFault

def reason : NameFault → String
  | .quoted => "a string is not a name"
  | .topLevel => "reserved for the top-level program"
  | .reserved => "it is a reserved word"
  | .firstChar => "first char must be a letter or '_'"
  | .otherChar => "only letters, digits and '_' are allowed"

end NameFault

namespace Wanted

def text : Wanted → String
  | .twoNumbersOrStrings => "two numbers or two strings"
  | .twoNumbers => "two numbers"
  | .valueAndType => "a value and a type"
  | .number => "a number"

end Wanted

namespace Error

/-- The class of an error. -/
def errorClass : Error → ErrorClass
  | .unterminatedString _ => .lexical
  | .missingFunctionName | .invalidFunctionName .. | .notAType .. | .missingAs _ | .missingEnd _
  | .unexpectedKeyword .. | .nestedFunction _ | .entryNotFound _ => .structural
  | _ => .execution

/-- A value with its kind, as diagnostics show it. -/
def describe (t : Token) : String := s!"{t.text} ({t.kindName})"

/-- The text of an error. -/
def message : Error → String
  | .unterminatedString start => s!"unterminated string starting at {start}"
  | .missingFunctionName => "'fun' is not followed by a function name"
  | .invalidFunctionName name fault =>
    s!"\"{name}\" can't be used as a function name: {fault.reason}"
  | .notAType function word => s!"{word} is not a type (parameters of '{function}')"
  | .missingAs function => s!"function '{function}' has no 'as' after its parameters"
  | .missingEnd function => s!"'{function}' is missing an 'end'"
  | .unexpectedKeyword function keyword => s!"unexpected '{keyword.spelling}' in '{function}'"
  | .nestedFunction function => s!"can't declare a function inside '{function}'"
  | .entryNotFound entry => s!"entry function '{entry}' does not exist"
  | .stackUnderflow op needed found =>
    s!"{op.spelling}: needs {needed} value(s) on the stack, found {found}"
  | .typeMismatch op wanted operands =>
    let found := " and ".intercalate (operands.map describe)
    s!"{op.spelling}: expected {wanted.text}, got {found}"
  | .assertionFailed left right => s!"assertion failed: \"{left.text}\" != \"{right.text}\""
  | .notPrintable value => s!"{value.text} is not a printable object"
  | .missingArguments function caller expected found =>
    s!"{function} expected {expected} argument(s) but got {found}: "
      ++ s!"nothing to get from parent \x7b{caller}\x7d stack"
  | .argumentType function index expected value =>
    s!"{function}: parameter {index} is declared {expected.spelling} but got {describe value}"
  | .noCondition function keyword => s!"no condition for '{keyword.spelling}' in '{function}'"
  | .undefinedBlock name => s!"{name}'s block is undefined"
  | .undefinedFunction name => s!"function '{name}' is not defined"
  | .frameLimit limit => s!"more than {limit} frames are live"
  | .writeFailed reason => s!"failed to write output: {reason}"

end Error

end Wordstack
