/-
Directives in the leading comment of a source text.

A directive is written `@name`, `@name: value` or `@name: 'value'`; the older form is
`!!cmd: name=value`.  The first directive of a name in the current form counts; the first one in
the older form counts only if there is none in the current form.

* **`read_eq_none`**: without a leading comment there is no directive.
-/
import StylesheetBuild.Directive.Comment
import StylesheetBuild.Text.Occurrences

namespace StylesheetBuild

inductive Directive where
  -- the directive is there, without a value
  | flag
  -- the directive has a value, given here without quotes
  | value (text : Text)
deriving Repr, DecidableEq

namespace Directive

open Text

/-- The value of a directive that has one. -/
def text? : Directive → Option Text
  | flag => none
  | value text => some text

/-- The values that switch an option off. -/
def offValues : List Text :=
  [[], ['f', 'a', 'l', 's', 'e'], ['0'], ['n', 'o'], ['o', 'f', 'f']]

/-- Whether the directive switches its option on: it has no value, or none of the values that
switch it off. -/
def isTruthy : Directive → Bool
  | flag => true
  | value text => !offValues.contains text

/-- Whether the directive has exactly the given value. -/
def hasValue (directive : Directive) (expected : Text) : Bool :=
  directive.text? = some expected

/-- An ASCII letter or digit, a hyphen or an underscore. -/
def isNameChar (c : Char) : Bool :=
  c.isAlphanum || c = '-' || c = '_'

/-- A character of a value without quotes. -/
def isBareChar (c : Char) : Bool :=
  isNameChar c || c = '.' || c = '/'

/-- A quoted value at the beginning of a text, and its length with the quotes. -/
def quoted? : Text → Option (Text × Nat)
  | [] => none
  | c :: rest =>
    let content := rest.takeWhile (!isQuote ·)
    if isQuote c && content != [] && rest.dropWhile (!isQuote ·) != [] then
      some (content, content.length + 2)
    else none

/-- A colon with spaces and tabs around it and a value behind it at the beginning of a text, and
the length of the whole. -/
def assigned? (text : Text) : Option (Text × Nat) :=
  match text.dropWhile isSpaceOrTab with
  | ':' :: rest =>
    let blanks := (text.takeWhile isSpaceOrTab).length + 1 + (rest.takeWhile isSpaceOrTab).length
    let body := rest.dropWhile isSpaceOrTab
    let bare := body.takeWhile isBareChar
    if bare = [] then (quoted? body).map fun (content, length) => (content, blanks + length)
    else some (bare, blanks + bare.length)
  | _ => none

/-- Recognises `@name` with or without a value. -/
def current : Recogniser (Text × Directive)
  | '@' :: rest =>
    let name := rest.takeWhile isNameChar
    if name = [] then none
    else match assigned? (rest.dropWhile isNameChar) with
    | some (text, length) => some ((name, value text), 1 + name.length + length)
    | none => some ((name, flag), 1 + name.length)
  | _ => none

/-- Recognises `!!cmd: name=value`. -/
def legacy : Recogniser (Text × Directive)
  | '!' :: '!' :: 'c' :: 'm' :: 'd' :: ':' :: rest =>
    let blanks := (rest.takeWhile isSpaceOrTab).length
    let body := rest.dropWhile isSpaceOrTab
    let name := body.takeWhile isNameChar
    let behind := body.dropWhile isNameChar
    match behind.dropWhile isSpaceOrTab with
    | '=' :: tail =>
      let text := (tail.dropWhile isSpaceOrTab).takeWhile isNameChar
      if name = [] || text = [] then none
      else some ((name, value text),
        6 + blanks + name.length + (behind.takeWhile isSpaceOrTab).length + 1
          + (tail.takeWhile isSpaceOrTab).length + text.length)
    | _ => none
  | _ => none

/-- The first directive called `name` that `recognise` finds in `comment`. -/
def find? (recognise : Recogniser (Text × Directive)) (comment name : Text) :
    Option Directive :=
  ((occurrences recognise comment).find? (·.2.1 = name)).map (·.2.2)

/-- What the leading comment of `source` says about `name`. -/
def read (source name : Text) : Option Directive := do
  let comment ← leadingComment? source
  find? current comment name <|> find? legacy comment name

theorem read_eq_none {source name : Text} (h : leadingComment? source = none) :
    read source name = none := by
  simp [read, h]

end Directive

end StylesheetBuild
