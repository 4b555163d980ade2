/-
Keys and values of a TOML document.

Readers take a text and answer with what they read and the text behind it.  Values nest; the
number of steps that reading one takes is bounded by the length of the text.
-/
import StylesheetBuild.Toml.Scalar
import StylesheetBuild.Toml.Tree

namespace StylesheetBuild.Toml

open Text (isSpaceOrTab)

/-- What a reader found at the beginning of a text, and the text behind it. -/
abbrev Reader (α : Type) := Text → Option (α × Text)

/-- The text without blanks at its beginning. -/
def skipSpace (text : Text) : Text :=
  text.dropWhile isSpaceOrTab

/-- The text without blanks, line breaks and comments at its beginning. -/
def skipFiller? (inComment : Bool) : Text → Option Text
  | [] => some []
  | '\n' :: rest => skipFiller? false rest
  | '\r' :: '\n' :: rest => skipFiller? false rest
  | c :: rest =>
    if inComment then
      if isPlain c then skipFiller? true rest else none
    else if isSpaceOrTab c then skipFiller? false rest
    else if c = '#' then skipFiller? true rest
    else some (c :: rest)

/-- Whether a character may stand in a key without quotes. -/
def isKeyChar (c : Char) : Bool :=
  c.isAlphanum || c = '-' || c = '_'

def simpleKey? : Reader Text
  | '"' :: rest => basic? rest
  | '\'' :: rest => literal? rest
  | text =>
    let key := text.takeWhile isKeyChar
    if key = [] then none else some (key, text.dropWhile isKeyChar)

/-- The parts of a key behind the first one, with the dots between them. -/
def keyParts? : Nat → Reader (List Text)
  | 0, _ => none
  | fuel + 1, text =>
    match skipSpace text with
    | '.' :: rest => do
      let (part, rest) ← simpleKey? (skipSpace rest)
      let (parts, rest) ← keyParts? fuel rest
      some (part :: parts, rest)
    | rest => some ([], rest)

/-- The number of parts that a dotted key may have. -/
def partsLimit : Nat := 80

/-- A dotted key: the parts before the last one, and the last one. -/
def key? : Reader (List Text × Text) := fun text => do
  let (first, rest) ← simpleKey? text
  let (others, rest) ← keyParts? (rest.length + 1) rest
  let parts := first :: others
  if partsLimit < parts.length then none
  else some ((parts.dropLast, parts.getLast (by simp [parts])), rest)

/-- A string at the beginning of a text. -/
def string? : Reader Text
  | '"' :: '"' :: '"' :: rest => basicLines? false (dropLineBreak rest)
  | '"' :: rest => basic? rest
  | '\'' :: '\'' :: '\'' :: rest => literalLines? (dropLineBreak rest)
  | '\'' :: rest => literal? rest
  | _ => none

/-- The number of arrays and inline tables that may lie inside one another. -/
def depthLimit : Nat := 80

mutual

/-- A value inside `depth` arrays and inline tables. -/
def valueAt? : Nat → Nat → Reader Value
  | 0, _, _ => none
  | fuel + 1, depth, text =>
    match text with
    | [] => none
    | '[' :: rest =>
      if depthLimit ≤ depth then none
      else do
        let (values, rest) ← elements? fuel (depth + 1) rest
        some (.array values, rest)
    | '\x7b' :: rest =>
      if depthLimit ≤ depth then none
      else do
        let (entries, rest) ← inlineEntries? fuel (depth + 1) [] rest
        some (.table (Node.entriesToValue entries), rest)
    | c :: rest =>
      if c = '"' || c = '\'' then (string? (c :: rest)).map fun (s, rest) => (.string s, rest)
      else
        let (word, rest) := token (c :: rest)
        (scalar? word).map fun value => (value, rest)

/-- The values of an array up to its closing bracket. -/
def elements? : Nat → Nat → Reader (List Value)
  | 0, _, _ => none
  | fuel + 1, depth, text => do
    match ← skipFiller? false text with
    | ']' :: rest => some ([], rest)
    | text => do
      let (value, rest) ← valueAt? fuel depth text
      match ← skipFiller? false rest with
      | ']' :: rest => some ([value], rest)
      | ',' :: rest => do
        let (values, rest) ← elements? fuel depth rest
        some (value :: values, rest)
      | _ => none

/-- The entries of an inline table up to its closing brace, added to those given. -/
def inlineEntries? : Nat → Nat → Entries → Reader Entries
  | 0, _, _, _ => none
  | fuel + 1, depth, entries, text => do
    match ← skipFiller? false text with
    | '\x7d' :: rest => some (entries, rest)
    | text => do
      let ((path, key), rest) ← key? text
      match skipSpace rest with
      | '=' :: rest => do
        let (value, rest) ← valueAt? fuel depth (skipSpace rest)
        let entries ← Entries.assign path key value .header entries
        match ← skipFiller? false rest with
        | '\x7d' :: rest => some (entries, rest)
        | ',' :: rest => inlineEntries? fuel depth entries rest
        | _ => none
      | _ => none

end

/-- A value at the beginning of a text. -/
def value? : Reader Value := fun text =>
  valueAt? (2 * text.length + 2) 0 text

end StylesheetBuild.Toml
