-- SUMMARY: Tables of configuration files: how keys and headers add to them, and what must not be said twice.
import Wordstack.Settings.Value

/-!
# Tables

A table comes to be in one of four ways: by a header, by the header of a table below
it, by the dots of a key, or by braces, after which it is closed. The statements of a
file add to the tables one after the other, and no statement may say again what
another one said.
-/

namespace Wordstack.Toml

/-- How an open table came to be. -/
inductive TableKind where
  | header
  /-- By the header of a table below it. -/
  | implied
  /-- By the dots of a key. -/
  | dotted
deriving DecidableEq, Repr

/-- What a key stands for. -/
inductive Node where
  /-- A value, which may be a closed list or table. -/
  | value (v : RawValue)
  | table (kind : TableKind) (entries : List (String × Node))
  /-- A list of tables of which only the last is open. -/
  | tables (last : List (String × Node))

abbrev Entries := List (String × Node)

/-- The value of a node as a whole. -/
def Node.raw : Node → RawValue
  | .value v => v
  | .table _ entries => .table entries.isEmpty
  | .tables _ => .list

namespace Entries

/-- Sets what a key stands for. -/
def set (entries : Entries) (key : String) (node : Node) : Entries :=
  if (entries.lookup key).isSome then
    entries.map fun (k, old) => if k == key then (k, node) else (k, old)
  else entries ++ [(key, node)]

/-- Gives a value to a dotted key. The dots go through tables that other dots made;
they may pass through others that no header names, but not end there. -/
def assign (v : RawValue) : List String → Entries → Option Entries
  | [], _ => none
  | [key], entries =>
    if (entries.lookup key).isSome then none else some (entries.set key (.value v))
  | key :: path, entries =>
    let isLast := path.length == 1
    match entries.lookup key with
    | none => (assign v path []).map fun inner => entries.set key (.table .dotted inner)
    | some (.table kind inner) =>
      if kind = .header || (isLast && kind = .implied) then none
      else (assign v path inner).map fun inner => entries.set key (.table kind inner)
    | some (.tables inner) =>
      if isLast then none
      else (assign v path inner).map fun inner => entries.set key (.tables inner)
    | some (.value _) => none

/-- Changes the table that a path leads to by `change` at its last key. -/
def descend (change : Entries → String → Option Entries) : List String → Entries → Option Entries
  | [], _ => none
  | [key], entries => change entries key
  | key :: path, entries =>
    match entries.lookup key with
    | none => (descend change path []).map fun inner => entries.set key (.table .implied inner)
    | some (.table kind inner) =>
      (descend change path inner).map fun inner => entries.set key (.table kind inner)
    | some (.tables inner) =>
      (descend change path inner).map fun inner => entries.set key (.tables inner)
    | some (.value _) => none

/-- Opens the table of a header. -/
def openTable (entries : Entries) (key : String) : Option Entries :=
  match entries.lookup key with
  | none => some (entries.set key (.table .header []))
  | some (.table .implied inner) => some (entries.set key (.table .header inner))
  | some _ => none

/-- Opens one more table of a list. -/
def openElement (entries : Entries) (key : String) : Option Entries :=
  match entries.lookup key with
  | none | some (.tables _) => some (entries.set key (.tables []))
  | some _ => none

/-- Gives a value to a dotted key of the open table at `key`. -/
def assignIn (path : List String) (v : RawValue) (entries : Entries) (key : String) :
    Option Entries :=
  match entries.lookup key with
  | some (.table kind inner) =>
    (assign v path inner).map fun inner => entries.set key (.table kind inner)
  | some (.tables inner) => (assign v path inner).map fun inner => entries.set key (.tables inner)
  | _ => none

end Entries

-- -----------------------------------------------------------------------
-- Statements
-- -----------------------------------------------------------------------

/-- What a file says. -/
inductive Statement where
  | assign (path : List String) (v : RawValue)
  | header (path : List String)
  | element (path : List String)
deriving DecidableEq, Repr

/-- The tables so far, and the path of the header that holds. -/
structure Document where
  entries : Entries := []
  current : List String := []

namespace Document

/-- Adds what a statement says. -/
def push (d : Document) : Statement → Option Document
  | .assign path v =>
    if d.current.isEmpty then (d.entries.assign v path).map fun entries => { d with entries }
    else
      (d.entries.descend (Entries.assignIn path v) d.current).map fun entries => { d with entries }
  | .header path =>
    (d.entries.descend Entries.openTable path).map fun entries => { entries, current := path }
  | .element path =>
    (d.entries.descend Entries.openElement path).map fun entries => { entries, current := path }

/-- The keys of the outermost table with their values. -/
def values (d : Document) : List (String × RawValue) :=
  d.entries.map fun (key, node) => (key, node.raw)

end Document

end Wordstack.Toml
