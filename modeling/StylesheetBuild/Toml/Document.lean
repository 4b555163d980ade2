/-
TOML documents.

A document is a sequence of lines: headers of tables, headers of arrays of tables, and keys with
values.
-/
import StylesheetBuild.Toml.Reader

namespace StylesheetBuild.Toml

/-- What has been read of a document: its entries, and the keys that lead to the table that the
next keys belong to. -/
structure Progress where
  entries : Entries
  -- the keys that lead to the current table
  current : List Text

/-- The text behind the end of a line: blanks, perhaps a comment, and a line break or the end. -/
def endLine? (text : Text) : Option Text :=
  let rest := skipSpace text
  let body := match rest with
    | '#' :: comment => comment.dropWhile isPlain
    | _ => rest
  match body with
  | [] => some []
  | '\n' :: rest => some rest
  | '\r' :: '\n' :: rest => some rest
  | _ => none

/-- The text behind the header of a table or of an array of tables, with the table defined. -/
def header? (progress : Progress) (array : Bool) (text : Text) : Option (Progress × Text) := do
  let ((path, key), rest) ← key? (skipSpace text)
  let rest ← match array, skipSpace rest with
    | true, ']' :: ']' :: rest => some rest
    | false, ']' :: rest => some rest
    | _, _ => none
  let change := if array then Entries.extend path key else Entries.define path key
  let entries ← change .header progress.entries
  some (⟨entries, path ++ [key]⟩, rest)

/-- The text behind a key and its value, with the key assigned in the current table. -/
def assignment? (progress : Progress) (text : Text) : Option (Progress × Text) := do
  let ((path, key), rest) ← key? text
  let rest ← match skipSpace rest with
    | '=' :: rest => some rest
    | _ => none
  let (value, rest) ← value? (skipSpace rest)
  let entries ← Entries.descend false (Entries.assign path key value) progress.current .header
    progress.entries
  some (⟨entries, progress.current⟩, rest)

/-- The text behind what stands on a line, with its effect. -/
def statement? (progress : Progress) (text : Text) : Option (Progress × Text) :=
  match text with
  | [] => some (progress, [])
  | '[' :: '[' :: rest => header? progress true rest
  | '[' :: rest => header? progress false rest
  | c :: rest =>
    if c = '#' || c = '\n' || c = '\r' then some (progress, c :: rest)
    else assignment? progress (c :: rest)

/-- Reads lines one after another; there are no more of them than `fuel`. -/
def lines? : Nat → Progress → Text → Option Entries
  | 0, _, _ => none
  | fuel + 1, progress, text =>
    match skipSpace text with
    | [] => some progress.entries
    | text => do
      let (progress, rest) ← statement? progress text
      lines? fuel progress (← endLine? rest)

/-- The text without a byte order mark at its beginning. -/
def dropMark : Text → Text
  | '\ufeff' :: rest => rest
  | text => text

/-- The entries of the table that a document describes. -/
def read? (document : Text) : Option (List (Text × Value)) :=
  (lines? (document.length + 1) ⟨[], []⟩ (dropMark document)).map Node.entriesToValue

end StylesheetBuild.Toml
