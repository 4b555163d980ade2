/-
The form `@import "…"`.

The keyword and blanks are followed by a quoted argument without quotes.  The two quotes need
not be alike.
-/
import StylesheetBuild.Reference.Enclosed
import StylesheetBuild.Text.Blank

namespace StylesheetBuild.ImportRule

open Text

/-- The keyword, blanks and a quote, with the text behind them. -/
def opening? : Text → Option (Text × Text)
  | '@' :: 'i' :: 'm' :: 'p' :: 'o' :: 'r' :: 't' :: rest =>
    match rest.dropWhile isBlank with
    | [] => none
    | quote :: inner =>
      if isQuote quote then
        some (['@', 'i', 'm', 'p', 'o', 'r', 't'] ++ rest.takeWhile isBlank ++ [quote], inner)
      else none
  | _ => none

/-- The form at the beginning of `text`. -/
def enclosed? (text : Text) : Option Enclosed := do
  let (opening, inner) ← opening? text
  let argument := inner.takeWhile (!isQuote ·)
  if argument = [] then none
  else match inner.dropWhile (!isQuote ·) with
  | [] => none
  | quote :: _ => some ⟨opening, argument, [quote]⟩

/-- Recognises `@import "…"`. -/
def recognise : Recogniser Enclosed :=
  fun text => (enclosed? text).map Enclosed.finding

end StylesheetBuild.ImportRule
