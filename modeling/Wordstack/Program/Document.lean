-- SUMMARY: Programs as JSON documents.
import Wordstack.Json.Reader
import Wordstack.Json.View
import Wordstack.Program

/-!
# Programs as documents

A program is written with all its parts, jump tables included, and read back
without checking them against each other. A number that is not finite has no
literal and is written as null, which no number is read from.

A record is read from an object or from the array of its fields. Objects may hold
further fields, which are ignored. A jump is always held back until its tag is known,
and the value of a token if its tag comes after it.
-/

namespace Wordstack

-- -----------------------------------------------------------------------
-- Names
-- -----------------------------------------------------------------------

def Operator.documentName : Operator → String
  | .add => "Add"
  | .sub => "Sub"
  | .mul => "Mul"
  | .div => "Div"
  | .mod => "Mod"
  | .max => "Max"
  | .min => "Min"
  | .eq => "Eq"
  | .ne => "Ne"
  | .gt => "Gt"
  | .lt => "Lt"
  | .ge => "Ge"
  | .le => "Le"
  | .print => "Print"
  | .ret => "Ret"
  | .copy => "Copy"
  | .drop => "Drop"
  | .swap => "Swap"
  | .rot => "Rot"
  | .carry => "Carry"
  | .sqrt => "Sqrt"
  | .is => "Is"
  | .assert => "Assert"

def Keyword.documentName : Keyword → String
  | .end_ => "End"
  | .if_ => "If"
  | .iff => "Iff"
  | .else_ => "Else"
  | .while_ => "While"
  | .do_ => "Do"
  | .fun_ => "Fun"
  | .as_ => "As"

def TypeName.documentName : TypeName → String
  | .num => "Num"
  | .int => "Int"
  | .float => "Float"
  | .double => "Double"
  | .string => "String"
  | .bool => "Bool"

def NumKind.all : List NumKind := [.num, .int, .float, .double]

def NumKind.documentName : NumKind → String
  | .num => "Num"
  | .int => "Int"
  | .float => "Float"
  | .double => "Double"

/-- The member of a family that a document names. -/
def ofDocumentName? {α : Type} (family : List α) (name : α → String) (held : Bool) (j : Json) :
    Option α := do
  let s ← j.choice? held
  family.find? (name · == s)

-- -----------------------------------------------------------------------
-- Tokens
-- -----------------------------------------------------------------------

namespace Token

/-- A number as a literal, or null if it is not finite. -/
def numberJson (v : Float) : Json :=
  match Number.documentText? v with
  | some literal => .number literal
  | none => .null

/-- A tagged value. -/
def tagged (tag : String) (value : Json) : Json := .record [("t", .text tag), ("v", value)]

def toJson : Token → Json
  | .op o => tagged "Op" (.text o.documentName)
  | .num kind v => tagged "Num" (.record [("kind", .text kind.documentName), ("v", numberJson v)])
  | .str s => tagged "Str" (.text s)
  | .bool b => tagged "Bool" (.bool b)
  | .type t => tagged "Type" (.text t.documentName)
  | .keyword k => tagged "Keyword" (.text k.documentName)
  | .ident name => tagged "Ident" (.text name)

/-- The number of a kind and a value. It is always an object. -/
def numberOfJson? (held : Bool) (j : Json) : Option Token := do
  let [kind, v] ← j.fields? ["kind", "v"] | none
  let kind ← ofDocumentName? NumKind.all NumKind.documentName held (← kind)
  let v ← (← v).float?
  return .num kind v

/-- The token of a tag and a value. -/
def ofTagged? (tag : String) (held : Bool) (value : Json) : Option Token :=
  match tag with
  | "Op" => (ofDocumentName? Operator.all Operator.documentName held value).map .op
  | "Num" => numberOfJson? held value
  | "Str" => value.text?.map .str
  | "Bool" => value.bool?.map .bool
  | "Type" => (ofDocumentName? TypeName.all TypeName.documentName held value).map .type
  | "Keyword" => (ofDocumentName? Keyword.all Keyword.documentName held value).map .keyword
  | "Ident" => value.text?.map .ident
  | _ => none

/-- Reads a token that may nest `room` deep if its value has to be held back. -/
def ofJson? (room : Nat) : Json → Option Token
  | .arr [.str tag, value] => do ofTagged? (← Json.textOf? tag) false value
  | .arr _ => none
  | j => do
    let fields ← j.named?
    let tag ← (← (← Json.unique? fields "t")).choice? false
    let value ← (← Json.unique? fields "v")
    let first ← fields.find? fun (name, _) => name == "t" || name == "v"
    let held := first.1 == "v"
    if held && !value.canHold (room - 1) then none else ofTagged? tag held value

end Token

-- -----------------------------------------------------------------------
-- Jumps
-- -----------------------------------------------------------------------

namespace Jump

def toJson : Jump → Json
  | .branch elseAt endAt =>
    .record [("t", .text "If"), ("else_at", (elseAt.map Json.nat).getD .null),
      ("end_at", .nat endAt)]
  | .loop doAt endAt =>
    .record [("t", .text "While"), ("do_at", .nat doAt), ("end_at", .nat endAt)]
  | .exit endAt => .record [("t", .text "Do"), ("end_at", .nat endAt)]
  | .back whileAt => .record [("t", .text "Loop"), ("while_at", .nat whileAt)]

/-- An offset that may be left out or null. -/
def optionalOffset? : Option Json → Option (Option Nat)
  | none | some .null => some none
  | some j => j.nat?.map some

/-- The tag of a jump, which is a string, and the document without it. -/
def splitTag? : Json → Option (String × Json)
  | .arr (tag :: rest) => tag.text?.map (·, .arr rest)
  | .obj fields =>
    let isTag := fun (field : String × Json) => Json.textOf? field.1 == some "t"
    match fields.filter isTag with
    | [(_, tag)] => tag.text?.map (·, .obj (fields.filter (!isTag ·)))
    | _ => none
  | _ => none

/-- The jump of a tag and the document without it. -/
def ofTagged? (tag : String) (rest : Json) : Option Jump := do
  match tag with
  | "If" =>
    let [elseAt, endAt] ← rest.recordFields? ["else_at", "end_at"] | none
    return .branch (← optionalOffset? elseAt) (← (← endAt).nat?)
  | "While" =>
    let [doAt, endAt] ← rest.recordFields? ["do_at", "end_at"] | none
    return .loop (← (← doAt).nat?) (← (← endAt).nat?)
  | "Do" =>
    let [endAt] ← rest.recordFields? ["end_at"] | none
    return .exit (← (← endAt).nat?)
  | "Loop" =>
    let [whileAt] ← rest.recordFields? ["while_at"] | none
    return .back (← (← whileAt).nat?)
  | _ => none

/-- Reads a jump that may nest `room` deep. -/
def ofJson? (room : Nat) (j : Json) : Option Jump :=
  if j.canHold room then do
    let (tag, rest) ← splitTag? j
    ofTagged? tag rest
  else none

end Jump

-- -----------------------------------------------------------------------
-- Definitions and programs
-- -----------------------------------------------------------------------

/-- Reads every element of an array. -/
def elementsOfJson? {α : Type} (read : Json → Option α) : Json → Option (List α)
  | .arr xs => xs.mapM read
  | _ => none

/-- Reads every field of an object into a map; `key` reads a name as it is written. The
last of several fields with the same key counts. -/
def mapOfJson? {α β : Type} [Ord α] [Std.TransOrd α] (key : String → Option α)
    (read : Json → Option β) : Json → Option (Std.ExtTreeMap α β)
  | .obj fields =>
    fields.foldlM (fun map (name, x) => do return map.insert (← key name) (← read x)) ∅
  | _ => none

namespace Param

def toJson (p : Param) : Json :=
  .record [("ty", .text p.type.documentName), ("name", .text p.name)]

def ofJson? (j : Json) : Option Param := do
  let [type, name] ← j.recordFields? ["ty", "name"] | none
  let type ← ofDocumentName? TypeName.all TypeName.documentName false (← type)
  return { type, name := ← (← name).text? }

end Param

namespace Definition

def toJson (d : Definition) : Json :=
  .record [
    ("name", .text d.name),
    ("params", .arr (d.params.map Param.toJson)),
    ("body", .arr (d.body.toList.map Token.toJson)),
    ("jumps", .obj (d.jumps.toList.map fun (at_, jump) =>
      (String.ofList (Nat.toDigits 10 at_), jump.toJson)))]

/-- Reads a definition of a program. Its tokens and jumps stand inside four pairs of
brackets. -/
def ofJson? (j : Json) : Option Definition := do
  let [name, params, body, jumps] ← j.recordFields? ["name", "params", "body", "jumps"] | none
  let room := Json.maxDepth - 4
  let body ← elementsOfJson? (Token.ofJson? room) (← body)
  return {
    name := ← (← name).text?
    params := ← elementsOfJson? Param.ofJson? (← params)
    body := body.toArray
    jumps := ← mapOfJson? Json.countOfLiteral? (Jump.ofJson? room) (← jumps) }

end Definition

namespace Block

def toJson (b : Block) : Json := .record (b.toList.map fun (name, value) => (name, value.toJson))

/-- Reads a block of a program. Its tokens stand inside three pairs of brackets. -/
def ofJson? (j : Json) : Option Block :=
  mapOfJson? Json.textOf? (Token.ofJson? (Json.maxDepth - 3)) j

end Block

namespace Program

def toJson (p : Program) : Json :=
  .record [
    ("functions", .record (p.functions.toList.map fun (name, d) => (name, d.toJson))),
    ("blocks", .record (p.blocks.toList.map fun (name, b) => (name, Block.toJson b)))]

def ofJson? (j : Json) : Option Program := do
  let [functions, blocks] ← j.recordFields? ["functions", "blocks"] | none
  return {
    functions := ← mapOfJson? Json.textOf? Definition.ofJson? (← functions)
    blocks := ← mapOfJson? Json.textOf? Block.ofJson? (← blocks) }

/-- Reads a program from the text of a document. -/
def ofDocument? (text : String) : Option Program := do
  ofJson? (← Json.parse? text)

end Program

end Wordstack
