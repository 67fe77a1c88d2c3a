-- SUMMARY: Jump tables: which structural keywords of a flat body belong to one block.
import Std.Data.ExtTreeMap
import Wordstack.Error

/-!
# Jump tables

Bodies stay flat lists of tokens. A jump table says where the partners of a
structural keyword stand, so that a run never has to search for them. It is
computed in one pass with a stack of the blocks that are still open.
-/

namespace Wordstack

/-- Where the partners of a keyword stand, as offsets into the body. -/
inductive Jump where
  /-- At an `if` or `iff`: its `else`, if there is one, and its `end`. -/
  | branch (elseAt : Option Nat) (endAt : Nat)
  /-- At a `while`: its `do` and its `end`. -/
  | loop (doAt endAt : Nat)
  /-- At a `do`: the `end` of its loop. -/
  | exit (endAt : Nat)
  /-- At the `end` of a loop: its `while`. -/
  | back (whileAt : Nat)
deriving DecidableEq, Repr

/-- The jumps of a body, by the offset of the keyword that each belongs to. -/
abbrev JumpTable := Std.ExtTreeMap Nat Jump

/-- A block that waits for its `end`. -/
structure OpenBlock where
  isLoop : Bool
  start : Nat
  /-- Offset of the `else` or `do`, once it has come. -/
  middle : Option Nat := none
deriving DecidableEq, Repr

namespace JumpTable

/-- Adds the jumps of a block that ends at `endAt`. A loop has to have its `do`. -/
def close? (jumps : JumpTable) (block : OpenBlock) (endAt : Nat) : Option JumpTable :=
  if block.isLoop then
    block.middle.map fun doAt =>
      ((jumps.insert block.start (.loop doAt endAt)).insert doAt (.exit endAt)).insert endAt
        (.back block.start)
  else
    some (jumps.insert block.start (.branch block.middle endAt))

/-- Marks the middle of the innermost open block, if it is of the right kind and
has none yet. -/
def setMiddle? (isLoop : Bool) (pos : Nat) : List OpenBlock → Option (List OpenBlock)
  | block :: outer =>
    if block.isLoop = isLoop ∧ block.middle = none then
      some ({ block with middle := some pos } :: outer)
    else none
  | [] => none

/-- Indexes the rest of a body from the offset `pos` on. The innermost open block
stands first. -/
def indexFrom (function : String) (jumps : JumpTable) (opened : List OpenBlock) (pos : Nat) :
    List Token → Except Error JumpTable
  | [] => if opened.isEmpty then .ok jumps else .error (.missingEnd function)
  | .keyword .if_ :: rest | .keyword .iff :: rest =>
    indexFrom function jumps ({ isLoop := false, start := pos } :: opened) (pos + 1) rest
  | .keyword .while_ :: rest =>
    indexFrom function jumps ({ isLoop := true, start := pos } :: opened) (pos + 1) rest
  | .keyword .else_ :: rest =>
    match setMiddle? false pos opened with
    | some opened => indexFrom function jumps opened (pos + 1) rest
    | none => .error (.unexpectedKeyword function .else_)
  | .keyword .do_ :: rest =>
    match setMiddle? true pos opened with
    | some opened => indexFrom function jumps opened (pos + 1) rest
    | none => .error (.unexpectedKeyword function .do_)
  | .keyword .end_ :: rest =>
    match opened with
    | [] => .error (.unexpectedKeyword function .end_)
    | block :: outer =>
      match close? jumps block pos with
      | some jumps => indexFrom function jumps outer (pos + 1) rest
      | none => .error (.unexpectedKeyword function .while_)
  | _ :: rest => indexFrom function jumps opened (pos + 1) rest

/-- The jump table of a function's body. -/
def ofBody (function : String) (body : List Token) : Except Error JumpTable :=
  indexFrom function ∅ [] 0 body

end JumpTable

end Wordstack
