/-
The form `url( … )`.

The keyword, blanks, an opening bracket and blanks are followed by an optional quote, an argument
without quotes and closing brackets, an optional quote, blanks and a closing bracket.  The two
quotes need not be alike, and either may be missing.

An argument in front of the bracket loses its blanks at the end; one in front of a quote keeps
them.  An argument of blanks alone is a single blank character: the first one behind an opening
quote, else the last one of those that precede it.

* **`trimmed_append`**: nothing is lost with the blanks that are cut off.
-/
import StylesheetBuild.Reference.Enclosed
import StylesheetBuild.Text.Blank

namespace StylesheetBuild.Url

open Text

/-- Whether a character can stand in the argument. -/
def isArgumentChar (c : Char) : Bool :=
  !isQuote c && c != ')'

/-- The keyword, blanks and the opening bracket, with the text behind them. -/
def opening? : Text → Option (Text × Text)
  | 'u' :: 'r' :: 'l' :: rest =>
    match rest.dropWhile isBlank with
    | '(' :: inner => some (['u', 'r', 'l'] ++ rest.takeWhile isBlank ++ ['('], inner)
    | _ => none
  | _ => none

/-- Blanks and the closing bracket. -/
def closing? (text : Text) : Option Text :=
  match text.dropWhile isBlank with
  | ')' :: _ => some (text.takeWhile isBlank ++ [')'])
  | _ => none

/-- `run` without the blanks at its end, yet its first character at least, and what was cut
off. -/
def trimmed (run : Text) : Text × Text :=
  let kept := max 1 (trimEnd run).length
  (run.take kept, run.drop kept)

theorem trimmed_append (run : Text) : (trimmed run).1 ++ (trimmed run).2 = run :=
  List.take_append_drop _ _

/-- The argument at the beginning of `text`, and what closes it. -/
def argument? (text : Text) : Option (Text × Text) :=
  let run := text.takeWhile isArgumentChar
  if run = [] then none
  else match text.dropWhile isArgumentChar with
  | [] => none
  | stop :: rest =>
    if stop = ')' then
      let (argument, blanks) := trimmed run
      some (argument, blanks ++ [')'])
    else (closing? rest).map fun closing => (run, stop :: closing)

/-- A quote at the beginning of `text`, if there is one, and the text behind it. -/
def optionalQuote : Text → Text × Text
  | [] => ([], [])
  | c :: rest => if isQuote c then ([c], rest) else ([], c :: rest)

/-- The form at the beginning of `text`. -/
def enclosed? (text : Text) : Option Enclosed := do
  let (opening, inner) ← opening? text
  let blanks := inner.takeWhile isBlank
  let (quote, body) := optionalQuote (inner.dropWhile isBlank)
  match argument? body with
  | some (argument, closing) => some ⟨opening ++ blanks ++ quote, argument, closing⟩
  | none => do
    let last ← blanks.getLast?
    let closing ← closing? body
    some ⟨opening ++ blanks.dropLast, [last], quote ++ closing⟩

/-- Recognises `url( … )`. -/
def recognise : Recogniser Enclosed :=
  fun text => (enclosed? text).map Enclosed.finding

end StylesheetBuild.Url
