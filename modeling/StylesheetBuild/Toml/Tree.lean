/-
Tables of a TOML document while it is read.

A table is defined by a header, by a dotted key, or only implied by a longer header; which of
these it is decides what may still be added to it.  A table that was only implied counts as
defined by a dotted key as soon as one leads through it.
-/
import StylesheetBuild.Toml.Value

namespace StylesheetBuild.Toml

/-- How a table came about. -/
inductive Origin where
  -- by a header of its own, or as the document
  | header
  -- by being on the way to the table of a header
  | implied
  -- by a dotted key
  | dotted
deriving Repr, DecidableEq

/-- What a key stands for while a document is read. -/
inductive Node where
  -- a value, which nothing can be added to
  | leaf (value : Value)
  | table (origin : Origin) (entries : List (Text × Node))
  -- an array of tables made by headers; additions go to the last one
  | tables (elements : List (List (Text × Node)))

namespace Node

mutual

def toValue : Node → Value
  | leaf value => value
  | table _ entries => .table (entriesToValue entries)
  | tables elements => .array (elementsToValue elements)

/-- The entries of a table that was read. -/
def entriesToValue : List (Text × Node) → List (Text × Value)
  | [] => []
  | (key, node) :: rest => (key, node.toValue) :: entriesToValue rest

/-- The tables of an array that was read. -/
def elementsToValue : List (List (Text × Node)) → List Value
  | [] => []
  | entries :: rest => .table (entriesToValue entries) :: elementsToValue rest

end

end Node

/-- The entries of a table while a document is read. -/
abbrev Entries := List (Text × Node)

namespace Entries

/-- What `key` stands for. -/
def get? (entries : Entries) (key : Text) : Option Node :=
  (entries.find? (·.1 = key)).map (·.2)

/-- The entries with `key` standing for `node`; a key that is there keeps its place. -/
def set (entries : Entries) (key : Text) (node : Node) : Entries :=
  if entries.any (·.1 = key) then
    entries.map fun entry => if entry.1 = key then (key, node) else entry
  else entries ++ [(key, node)]

/-- A change of the entries of a table, which may be refused; it is told how the table came
about. -/
abbrev Change := Origin → Entries → Option Entries

/-- Changes the table that a path of keys leads to.  Tables that are missing are made, by `dotted`
keys or else as implied ones.  A dotted key cannot lead into a table with a header of its own, and
takes over one that was only implied. -/
def descend (dotted : Bool) (change : Change) : List Text → Change
  | [], origin, entries => change origin entries
  | key :: path, _, entries =>
    match get? entries key with
    | none => do
      let origin := if dotted then Origin.dotted else .implied
      let inner ← descend dotted change path origin []
      some (set entries key (.table origin inner))
    | some (.table origin inner) =>
      if dotted && origin = .header then none
      else do
        let origin := if dotted then Origin.dotted else origin
        let inner ← descend dotted change path origin inner
        some (set entries key (.table origin inner))
    | some (.tables elements) => do
      let last ← elements.getLast?
      let last ← descend dotted change path .header last
      some (set entries key (.tables (elements.dropLast ++ [last])))
    | some (.leaf _) => none

/-- Gives a dotted key a value, in a table that has nothing for it yet.  The last part of the key
goes into a table made by dotted keys exactly if there are parts before it. -/
def assign (path : List Text) (key : Text) (value : Value) : Change :=
  descend true (fun origin entries =>
    if decide (origin = .dotted) = path.isEmpty then none
    else if (get? entries key).isSome then none
    else some (set entries key (.leaf value))) path

/-- Defines the table of a header, which is not there yet or only implied. -/
def define (path : List Text) (key : Text) : Change :=
  descend false (fun _ entries =>
    match get? entries key with
    | none => some (set entries key (.table .header []))
    | some (.table .implied inner) => some (set entries key (.table .header inner))
    | some _ => none) path

/-- Adds a table to the array of a header. -/
def extend (path : List Text) (key : Text) : Change :=
  descend false (fun _ entries =>
    match get? entries key with
    | none => some (set entries key (.tables [[]]))
    | some (.tables elements) => some (set entries key (.tables (elements ++ [[]])))
    | some _ => none) path

end Entries

end StylesheetBuild.Toml
