-- SUMMARY: The files of a folder, found by walking along their paths.

/-!
# Folders

The files that the commands read, by their paths from the working folder. A path is
walked step by step, and each step but the last has to lead to a folder. In the folder of
some files, what lies above the working folder is a folder too, but nothing in it is known.
-/

namespace Wordstack

/-- What a path leads to. -/
inductive Entry where
  | file (content : ByteArray)
  | folder

/-- Why a path leads nowhere, or to nothing that can be read as a text. -/
inductive ReadError where
  | missing
  | notFolder
  | nameTooLong
  | nulInName
  | folder
  | notText
deriving DecidableEq, Repr

def ReadError.message : ReadError → String
  | .missing => "No such file or directory (os error 2)"
  | .notFolder => "Not a directory (os error 20)"
  | .nameTooLong => "File name too long (os error 36)"
  | .nulInName => "file name contained an unexpected NUL byte"
  | .folder => "Is a directory (os error 21)"
  | .notText => "stream did not contain valid UTF-8"

/-- A working folder, by what the paths from it lead to. -/
structure Folder where
  entry : String → Except ReadError Entry
  /-- How many folders lie above it. -/
  depth : Nat := 0

namespace Folder

-- -----------------------------------------------------------------------
-- Reading
-- -----------------------------------------------------------------------

/-- The content of a file. -/
def readBytes (f : Folder) (path : String) : Except ReadError ByteArray := do
  match ← f.entry path with
  | .folder => .error .folder
  | .file content => .ok content

/-- The text of a file. -/
def read (f : Folder) (path : String) : Except ReadError String := do
  match String.fromUTF8? (← f.readBytes path) with
  | some text => .ok text
  | none => .error .notText

def isFile (f : Folder) (path : String) : Bool :=
  match f.entry path with
  | .ok (.file _) => true
  | _ => false

/-- The content of the first of some files that is there. A path that leads to a folder or
to nothing is passed over, and one that cannot be followed ends the search. -/
def firstFile? (f : Folder) : List String → Option ByteArray
  | [] => none
  | path :: paths =>
    match f.entry path with
    | .ok (.file content) => some content
    | .ok .folder => firstFile? f paths
    | .error .missing => firstFile? f paths
    | .error _ => none

-- -----------------------------------------------------------------------
-- Paths
-- -----------------------------------------------------------------------

/-- The steps of a path. Empty ones come from slashes at its ends and in a row. -/
def steps (path : String) : List String := (path.toList.splitOn '/').map String.ofList

/-- Whether a step stays in place. -/
def staysInPlace (step : String) : Bool := step == "" || step == "."

/-- The step that a path ends with. -/
def lastStep? (path : String) : Option String :=
  ((steps path).filter (!staysInPlace ·)).getLast?

/-- The ending of a path: what follows the last dot of its last step, if anything stands
before that dot. -/
def ending? (path : String) : Option String := do
  let cs := (← lastStep? path).toList.reverse
  match cs.dropWhile (· != '.') with
  | _ :: _ :: _ => some (String.ofList (cs.takeWhile (· != '.')).reverse)
  | _ => none

/-- The paths of a name in the working folder and in those above it, from there upwards. -/
def upwards (f : Folder) (name : String) : List String :=
  (List.range (f.depth + 1)).map fun levels => String.join (List.replicate levels "../") ++ name

/-- A path without the steps that stay in place. -/
def normalize (path : String) : String :=
  let root := if path.toList.head? = some '/' then "/" else ""
  root ++ "/".intercalate ((steps path).filter (!staysInPlace ·))

/-- How many bytes a step may have. -/
def maxStep : Nat := 255

/-- How many bytes a path may have. -/
def maxPath : Nat := 4095

-- -----------------------------------------------------------------------
-- Walking
-- -----------------------------------------------------------------------

/-- Where a walk has come to. -/
inductive Position where
  /-- A folder, by the steps that lead down to it from the working folder. -/
  | inside (steps : List String)
  /-- A folder above the working folder. -/
  | above
  | file (content : ByteArray)

/-- What the steps down from the working folder lead to. A folder exists if there is
a file somewhere below it. -/
def find (files : List (List String × ByteArray)) (target : List String) :
    Except ReadError Position :=
  match files.lookup target with
  | some content => .ok (.file content)
  | none => if files.any (target.isPrefixOf ·.1) then .ok (.inside target) else .error .missing

/-- Takes one step. -/
def walkStep (files : List (List String × ByteArray)) (position : Position) (step : String) :
    Except ReadError Position :=
  match position with
  | .file _ => .error .notFolder
  | .above =>
    if staysInPlace step || step == ".." then .ok .above
    else if maxStep < step.utf8ByteSize then .error .nameTooLong
    else .error .missing
  | .inside at_ =>
    if staysInPlace step then .ok (.inside at_)
    else if step == ".." then .ok (if at_.isEmpty then .above else .inside at_.dropLast)
    else if maxStep < step.utf8ByteSize then .error .nameTooLong
    else find files (at_ ++ [step])

/-- Walks along a path. -/
def walk (files : List (List String × ByteArray)) (path : String) : Except ReadError Position :=
  if path.contains (Char.ofNat 0) then .error .nulInName
  else if maxPath < path.utf8ByteSize then .error .nameTooLong
  else if path = "" then .error .missing
  else
    let start := if path.toList.head? = some '/' then Position.above else .inside []
    (steps path).foldlM (walkStep files) start

/-- The folder that holds some files by their paths, and no others. -/
def ofFiles (files : List (String × ByteArray)) : Folder :=
  let files := files.map fun (path, content) =>
    ((steps path).filter (!staysInPlace ·), content)
  { entry := fun path => do
      match ← walk files path with
      | .file content => .ok (.file content)
      | _ => .ok .folder }

/-- The folder in which only some paths are known to lead somewhere. -/
def ofEntries (entries : List (String × Except ReadError Entry)) : Folder where
  entry path := (entries.lookup path).getD (.error .missing)

end Folder

end Wordstack
