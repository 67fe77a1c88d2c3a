-- SUMMARY: Reading a program from its source text.
import Wordstack.Lexeme
import Wordstack.Program
import Wordstack.Text.Letter

/-!
# Programs from source texts

The lexemes are taken in one at a time. A definition is `fun`, a name, type names,
`as`, a body and the `end` that balances it. All lexemes outside definitions are
collected as the body of `_global`, which is indexed last.
-/

namespace Wordstack

-- -----------------------------------------------------------------------
-- Names
-- -----------------------------------------------------------------------

/-- Whether a word has a meaning of its own that a function name would hide. -/
def isReserved (word : String) : Bool :=
  (Operator.ofWord? word).isSome || (Keyword.ofWord? word).isSome
    || (TypeName.ofWord? word).isSome || word == "true" || word == "false"

/-- What keeps a bare word from being a function name, if anything does. -/
def nameFault? (word : String) : Option NameFault :=
  if word = globalName then some .topLevel
  else if isReserved word then some .reserved
  else
    match word.toList with
    | [] => some .firstChar
    | c :: cs =>
      if !(Text.isLetter c || c == '_') then some .firstChar
      else if !cs.all (fun c => Text.isLetterOrDigit c || c == '_') then some .otherChar
      else none

-- -----------------------------------------------------------------------
-- Taking in lexemes
-- -----------------------------------------------------------------------

/-- Where in a definition the reading stands. Collected items are kept in reverse. -/
inductive Position where
  /-- Outside all definitions. -/
  | outside
  /-- Right after `fun`. -/
  | name
  /-- Among the type names before `as`. -/
  | params (name : String) (params : List Param)
  /-- In the body, inside `depth` blocks. -/
  | body (name : String) (params : List Param) (depth : Nat) (body : List Token)

/-- The definitions so far, the lexemes outside them in reverse, and the position. -/
structure Reading where
  program : Program
  top : List Token := []
  position : Position := .outside

namespace Reading

/-- One more token of a body. The balancing `end` completes the definition. -/
def pushBody (r : Reading) (name : String) (params : List Param) (depth : Nat)
    (body : List Token) (token : Token) : Except Error Reading :=
  match token, depth with
  | .keyword .end_, 0 => do
    let d ← Definition.make name params.reverse body.reverse
    return { r with program := r.program.define d, position := .outside }
  | .keyword .end_, depth + 1 =>
    return { r with position := .body name params depth (token :: body) }
  | .keyword .fun_, _ => .error (.nestedFunction name)
  | .keyword k, _ =>
    let depth := if k.opensBlock then depth + 1 else depth
    return { r with position := .body name params depth (token :: body) }
  | _, _ => return { r with position := .body name params depth (token :: body) }

/-- Takes in one more lexeme. -/
def push (r : Reading) (lexeme : Lexeme) : Except Error Reading :=
  match r.position with
  | .outside =>
    if lexeme.isKeyword .fun_ then return { r with position := .name }
    else return { r with top := lexeme.token :: r.top }
  | .name =>
    match lexeme with
    | .quoted s => .error (.invalidFunctionName s .quoted)
    | .word w =>
      match nameFault? w with
      | some fault => .error (.invalidFunctionName w fault)
      | none => return { r with position := .params w [] }
  | .params name params =>
    if lexeme.isKeyword .as_ then return { r with position := .body name params 0 [] }
    else
      match lexeme with
      | .quoted s => .error (.notAType name ("\"" ++ s ++ "\""))
      | .word w =>
        match TypeName.ofWord? w with
        | some type => return { r with position := .params name ({ type, name := w } :: params) }
        | none => .error (.notAType name w)
  | .body name params depth body => r.pushBody name params depth body lexeme.token

/-- The program once the lexemes have run out, which must not happen inside a
definition. -/
def finish (r : Reading) : Except Error Program :=
  match r.position with
  | .outside => do
    let d ← Definition.make globalName [] r.top.reverse
    return { r.program with functions := r.program.functions.insert globalName d }
  | .name => .error .missingFunctionName
  | .params name _ => .error (.missingAs name)
  | .body name _ _ _ => .error (.missingEnd name)

end Reading

namespace Program

/-- The program of a stream of lexemes. -/
def ofLexemes (lexemes : List Lexeme) (version : String) : Except Error Program := do
  let r ← lexemes.foldlM Reading.push { program := empty version }
  r.finish

/-- The program of a source text. -/
def ofSource (source version : String) : Except Error Program := do
  let lexemes ← Lexeme.scan (Lexeme.dropReturns source)
  ofLexemes lexemes version

end Program

end Wordstack
