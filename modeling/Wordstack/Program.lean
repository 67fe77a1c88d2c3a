-- SUMMARY: Programs: the registry of functions, and a block of named values for each.
import Wordstack.Jump

/-!
# Programs

A program is a registry of definitions together with one block of named values per
function. The words outside all definitions form the body of the function
`_global`, whose block binds the language version.
-/

namespace Wordstack

/-- A declared parameter: its type and the word it was written as. -/
structure Param where
  type : TypeName
  name : String
deriving DecidableEq, Repr

/-- The parameter that a type name declares. -/
def Param.ofType (type : TypeName) : Param := { type, name := type.spelling }

/-- A function: its parameters, its flat body and the jumps within that. -/
structure Definition where
  name : String
  params : List Param
  body : Array Token
  jumps : JumpTable
deriving DecidableEq

/-- The named values of a function. -/
abbrev Block := Std.ExtTreeMap String Token

/-- Functions and blocks by name. -/
structure Program where
  functions : Std.ExtTreeMap String Definition
  blocks : Std.ExtTreeMap String Block
deriving DecidableEq

/-- The function that holds the words outside all definitions. -/
def globalName : String := "_global"

/-- The function that runs after the top-level words unless another is named. -/
def defaultEntry : String := "main"

/-- The version that a program is told unless another is given. -/
def defaultVersion : String := "alpha"

namespace Definition

/-- A definition with the jump table of its body. -/
def make (name : String) (params : List Param) (body : List Token) :
    Except Error Definition := do
  let jumps ← JumpTable.ofBody name body
  return { name, params, body := body.toArray, jumps }

end Definition

namespace Program

/-- The program without any words. -/
def empty (version : String) : Program where
  functions := Std.ExtTreeMap.empty.insert globalName
    { name := globalName, params := [], body := #[], jumps := ∅ }
  blocks := Std.ExtTreeMap.empty.insert globalName
    (Std.ExtTreeMap.empty.insert "version" (.str version))

/-- Registers a definition under its name, with an empty block. An earlier one of
the same name is lost. -/
def define (p : Program) (d : Definition) : Program where
  functions := p.functions.insert d.name d
  blocks := p.blocks.insert d.name ∅

/-- Binds a value to a name in the block of a function that has one. -/
def bindValue (p : Program) (function name : String) (value : Token) : Program :=
  { p with blocks := p.blocks.modify function (·.insert name value) }

def removeBlock (p : Program) (function : String) : Program :=
  { p with blocks := p.blocks.erase function }

def removeFunction (p : Program) (function : String) : Program :=
  { p with functions := p.functions.erase function }

/-- Empties the jump table of a function. -/
def dropJumps (p : Program) (function : String) : Program :=
  { p with functions := p.functions.modify function ({ · with jumps := ∅ }) }

/-- The block of a function. -/
def block (p : Program) (name : String) : Except Error Block :=
  match p.blocks[name]? with
  | some block => .ok block
  | none => .error (.undefinedBlock name)

end Program

end Wordstack
