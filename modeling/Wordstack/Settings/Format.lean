-- SUMMARY: The formats of configuration files: the names of the files, and what their texts say.
import Wordstack.Folder
import Wordstack.Json.Reader
import Wordstack.Json.View
import Wordstack.Toml.Reader

/-!
# Formats of configuration files

The ending of a file's name tells its format. A name without an ending stands for the first
file that is there with one of the endings. In which order they are tried is left open, and
so is what the texts say that are neither TOML nor JSON.
-/

namespace Wordstack

/-- What a text says: values by their keys, if it makes sense at all. -/
abbrev FileReader := String → Option (List (String × RawValue))

namespace Json

/-- A number is an integer if it is written as one and has 64 bits. A negative zero is not. -/
def settingNumber? (literal : String) : Option RawValue :=
  match if literal = "-0" then none else RawValue.int? literal with
  | some i => some (.int i)
  | none => (floatOfLiteral? literal).map .float

/-- The value of a setting. -/
def setting? : Json → Option RawValue
  | .null => some .null
  | .bool b => some (.bool b)
  | .number literal => settingNumber? literal
  | .str written => (textOf? written).map .text
  | .arr _ => some .list
  | .obj fields => some (.table fields.isEmpty)

/-- Of several fields with one name the last one counts. -/
def lastOfEach : List (String × Json) → List (String × Json)
  | [] => []
  | field :: fields =>
    if fields.any (·.1 == field.1) then lastOfEach fields else field :: lastOfEach fields

/-- The values of an object, all of which has to make sense. -/
def settings? : FileReader := fun text => do
  let j ← parse? text
  let fields ← j.named?
  if j.canHold maxDepth then
    (lastOfEach fields).mapM fun (name, x) => (setting? x).map (name, ·)
  else none

end Json

/-- The formats of configuration files. -/
inductive FileFormat where
  | toml
  | json
  | yaml
  | ini
  | ron
  | json5
deriving DecidableEq, Repr

namespace FileFormat

def all : List FileFormat := [.toml, .json, .yaml, .ini, .ron, .json5]

/-- The endings of the files in a format. -/
def endings : FileFormat → List String
  | .toml => ["toml"]
  | .json => ["json"]
  | .yaml => ["yaml", "yml"]
  | .ini => ["ini"]
  | .ron => ["ron"]
  | .json5 => ["json5"]

/-- The format that a path tells by its ending. -/
def ofPath? (path : String) : Option FileFormat := do
  let ending ← Folder.ending? path
  all.find? (ending ∈ ·.endings)

end FileFormat

/-- How configuration files are found and read, as far as that is left open. -/
structure Formats where
  /-- The order in which the formats are tried. -/
  order : List FileFormat := FileFormat.all
  /-- The readers of the formats other than TOML and JSON. -/
  reader : FileFormat → FileReader := fun _ _ => none

namespace Formats

/-- What a text in a format says. -/
def read? (formats : Formats) : FileFormat → FileReader
  | .toml => Toml.parse?
  | .json => Json.settings?
  | format => formats.reader format

/-- The files that a name without an ending may stand for, in the order in which they are
tried. -/
def candidates (formats : Formats) (name : String) : List (String × FileFormat) :=
  formats.order.flatMap fun format =>
    format.endings.map fun ending => (name ++ "." ++ ending, format)

end Formats

end Wordstack
