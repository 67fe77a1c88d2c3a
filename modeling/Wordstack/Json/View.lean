-- SUMMARY: Looking into JSON documents: texts, numbers, names out of a choice, and fields.
import Wordstack.Json.Literal

/-!
# Looking into documents

What a reader of records asks of a document. It looks only at the parts it knows, so a
field that it does not know may hold anything at all.

A value can also come before it is known what it is to be, as the content of a record
does when its tag follows. Such a value is held back, and for that all of it has to make
sense.
-/

namespace Wordstack.Json

-- -----------------------------------------------------------------------
-- Single values
-- -----------------------------------------------------------------------

def nat? : Json → Option Nat
  | .number literal => countOfLiteral? literal
  | _ => none

def float? : Json → Option Float
  | .number literal => floatOfLiteral? literal
  | _ => none

def text? : Json → Option String
  | .str written => textOf? written
  | _ => none

def bool? : Json → Option Bool
  | .bool b => some b
  | _ => none

/-- A name out of a fixed choice: a string, or an object whose one field has that name
and is null. In a value that was held back the field may be an empty object too. -/
def choice? (held : Bool) : Json → Option String
  | .str written => textOf? written
  | .obj [(name, .null)] => textOf? name
  | .obj [(name, .obj [])] => if held then textOf? name else none
  | _ => none

-- -----------------------------------------------------------------------
-- Fields
-- -----------------------------------------------------------------------

/-- The fields of an object by the texts of their names. -/
def named? : Json → Option (List (String × Json))
  | .obj fields => fields.mapM fun (written, x) => (textOf? written).map (·, x)
  | _ => none

/-- The field with a name, if there is one. There must not be two. -/
def unique? (fields : List (String × Json)) (name : String) : Option (Option Json) :=
  match fields.filter (·.1 == name) with
  | [] => some none
  | [(_, x)] => some (some x)
  | _ => none

/-- The fields of an object with given names. They may come in any order and others
besides. -/
def fields? (names : List String) (j : Json) : Option (List (Option Json)) := do
  let fields ← j.named?
  names.mapM (unique? fields)

/-- The fields of a record: an object, or an array that gives them by their
positions. -/
def recordFields? (names : List String) : Json → Option (List (Option Json))
  | .arr xs => if xs.length = names.length then some (xs.map some) else none
  | j => j.fields? names

-- -----------------------------------------------------------------------
-- Values that are held back
-- -----------------------------------------------------------------------

/-- How deep the brackets of a document may nest, except in what is not looked at. -/
def maxDepth : Nat := 127

mutual

/-- Whether a value can be held back: its strings stand for texts and its numbers for
doubles, and its brackets nest at most `room` deep. -/
def canHold : Nat → Json → Bool
  | _, .null => true
  | _, .bool _ => true
  | _, .number literal => (floatOfLiteral? literal).isSome
  | _, .str written => (textOf? written).isSome
  | 0, .arr _ => false
  | 0, .obj _ => false
  | room + 1, .arr xs => canHoldElements room xs
  | room + 1, .obj fields => canHoldFields room fields

def canHoldElements (room : Nat) : List Json → Bool
  | [] => true
  | x :: xs => canHold room x && canHoldElements room xs

def canHoldFields (room : Nat) : List (String × Json) → Bool
  | [] => true
  | (name, x) :: fields =>
    (textOf? name).isSome && canHold room x && canHoldFields room fields

end

end Wordstack.Json
