/-
Numbers, truth values, dates and times of a TOML document.

Each is a token, which is read as a whole or refused.  A whole number is not looked at closely
while it is read: it may turn out later that it stands for no number.
-/
import StylesheetBuild.Toml.Quoted
import StylesheetBuild.Toml.Value

namespace StylesheetBuild.Toml

/-- Whether a character may be part of a token: any but blanks, line breaks, and the signs that
arrays, tables, comments and assignments are written with. -/
def isTokenChar (c : Char) : Bool :=
  !([' ', '\t', '\r', '\n', ',', '=', '#', '[', ']', '\x7b', '\x7d'].contains c)

def decimalValue? (c : Char) : Option Nat :=
  if c.isDigit then some (c.toNat - 0x30) else none

/-- Whether a character is a hexadecimal digit. -/
def isHexDigit (c : Char) : Bool :=
  (hexValue? c).isSome

/-! ### Underscores -/

/-- Whether each underscore has a digit behind it, and a digit in front of it unless it comes
first. -/
def underscoresFit (isDigit : Char → Bool) : Text → Bool
  | [] => true
  | [c] => c != '_'
  | c :: d :: rest =>
    (c != '_' || isDigit d) && (d != '_' || isDigit c) && underscoresFit isDigit (d :: rest)

def withoutUnderscores (text : Text) : Text :=
  text.filter (· != '_')

/-- A sign and the text behind it; whether it is a minus. -/
def signed : Text → Bool × Text
  | '+' :: rest => (false, rest)
  | '-' :: rest => (true, rest)
  | text => (false, text)

/-- Whether the underscores of a number fit.  A number does not begin with one, yet one may follow
its sign. -/
def isGrouped (isDigit : Char → Bool) (number : Text) : Bool :=
  number.head? != some '_' && underscoresFit isDigit (signed number).2

/-! ### Whole numbers -/

/-- A whole number in the base that its beginning named.  There may be no digit at all; then it
stands for no number. -/
def basedInteger? (base : Nat) (text : Text) : Option Value := do
  let digits ← (withoutUnderscores text).mapM fun c => (hexValue? c).filter (· < base)
  if text.head? = some '_' || !underscoresFit isHexDigit text then none
  else some (.integer (if digits = [] then none else some (numberOf base digits)))

/-- A decimal number that is whole.  Behind an underscore there may be other characters than
digits; then it stands for no number. -/
def decimalInteger? (text : Text) : Option Value :=
  let (negative, body) := signed text
  let isWhole := match body.dropWhile Char.isDigit with
    | [] => body != []
    | c :: _ => c = '_'
  if !isWhole || (body.head? = some '0' && body.length != 1) || !isGrouped isHexDigit text then none
  else
    let number := ((withoutUnderscores body).mapM decimalValue?).map fun digits =>
      if negative then -Int.ofNat (numberOf 10 digits) else Int.ofNat (numberOf 10 digits)
    some (.integer number)

/-! ### Other numbers -/

/-- The decimal digits at the beginning of a text, underscores left out, and the text behind
them; there has to be a digit. -/
def digitRun? (text : Text) : Option (List Nat × Text) :=
  let isPart := fun c => c.isDigit || c = '_'
  let digits := (text.takeWhile isPart).filterMap decimalValue?
  if digits = [] then none else some (digits, text.dropWhile isPart)

/-- The digits behind a decimal point, if there is one, and the text behind them. -/
def places? : Text → Option (List Nat × Text)
  | '.' :: rest => digitRun? rest
  | text => some ([], text)

/-- The exponent behind an `e`, or zero where there is none, and the text behind it. -/
def exponent? : Text → Option (Int × Text)
  | [] => some (0, [])
  | c :: rest =>
    if c = 'e' || c = 'E' then do
      let (negative, rest) := signed rest
      let (digits, rest) ← digitRun? rest
      let magnitude := Int.ofNat (numberOf 10 digits)
      some (if negative then -magnitude else magnitude, rest)
    else some (0, c :: rest)

/-- A number with a decimal point or an exponent, without needless zeros at its beginning. -/
def decimalFloat? (text : Text) : Option Float := do
  let body := (signed text).2
  let (whole, rest) ← digitRun? body
  let (places, rest) ← places? rest
  let (exponent, rest) ← exponent? rest
  if rest != [] || (body.head? = some '0' && whole.length != 1) || !isGrouped Char.isDigit text then
    none
  else some (.decimal (numberOf 10 (whole ++ places)) (exponent - places.length))

/-- Whether a character marks a number that is not written as a whole one. -/
def isFloatMark (c : Char) : Bool :=
  c = '.' || c = 'e' || c = 'E'

def number? (text : Text) : Option Value :=
  match text with
  | '0' :: 'x' :: rest => basedInteger? 16 rest
  | '0' :: 'o' :: rest => basedInteger? 8 rest
  | '0' :: 'b' :: rest => basedInteger? 2 rest
  | _ =>
    let body := (signed text).2
    if body = ['i', 'n', 'f'] || body = ['n', 'a', 'n'] then some (.float .special)
    else if (body.dropWhile Char.isDigit).any isFloatMark then (decimalFloat? text).map .float
    else decimalInteger? text

/-! ### Dates and times -/

/-- A number of exactly `count` decimal digits at the beginning of a text. -/
def fixed? (count : Nat) (text : Text) : Option (Nat × Text) := do
  let digits ← (text.take count).mapM decimalValue?
  if digits.length = count then some (numberOf 10 digits, text.drop count) else none

/-- The text behind the character `c`. -/
def expect? (c : Char) : Text → Option Text
  | [] => none
  | d :: rest => if d = c then some rest else none

/-- The number of days in a month. -/
def daysIn (year month : Nat) : Nat :=
  if month = 2 then
    if (year % 4 = 0 && year % 100 != 0) || year % 400 = 0 then 29 else 28
  else if month = 4 || month = 6 || month = 9 || month = 11 then 30
  else 31

/-- The text behind a date. -/
def date? (text : Text) : Option Text := do
  let (year, rest) ← fixed? 4 text
  let rest ← expect? '-' rest
  let (month, rest) ← fixed? 2 rest
  let rest ← expect? '-' rest
  let (day, rest) ← fixed? 2 rest
  if 1 ≤ month && month ≤ 12 && 1 ≤ day && day ≤ daysIn year month then some rest else none

/-- The text behind a fraction of a second, if there is one. -/
def fraction? : Text → Option Text
  | '.' :: rest =>
    if rest.head?.any Char.isDigit then some (rest.dropWhile Char.isDigit) else none
  | text => some text

/-- The text behind a time; the seconds may be missing. -/
def time? (text : Text) : Option Text := do
  let (hour, rest) ← fixed? 2 text
  let rest ← expect? ':' rest
  let (minute, rest) ← fixed? 2 rest
  if 23 < hour || 59 < minute then none
  else match rest with
  | ':' :: rest => do
    let (second, rest) ← fixed? 2 rest
    if 60 < second then none else fraction? rest
  | _ => some rest

/-- Whether a text is nothing or an offset from universal time. -/
def isOffset (text : Text) : Bool :=
  match text with
  | [] => true
  | [c] => c = 'Z' || c = 'z'
  | c :: rest =>
    (c = '+' || c = '-') &&
    match (do
      let (hour, rest) ← fixed? 2 rest
      let rest ← expect? ':' rest
      let (minute, rest) ← fixed? 2 rest
      some (decide (hour ≤ 23) && decide (minute ≤ 59) && decide (rest = [])) : Option Bool) with
    | some ok => ok
    | none => false

/-- Whether a token is a date, a time, or both. -/
def isMoment (token : Text) : Bool :=
  match date? token with
  | some [] => true
  | some (c :: rest) => (c = 'T' || c = 't' || c = ' ') && (time? rest).any isOffset
  | none => time? token = some []

/-- The value that a token stands for. -/
def scalar? (token : Text) : Option Value :=
  if token = ['t', 'r', 'u', 'e'] then some (.boolean true)
  else if token = ['f', 'a', 'l', 's', 'e'] then some (.boolean false)
  else if isMoment token then some .moment
  else number? token

/-- A token at the beginning of a text, and the text behind it.  A date and a time may have a
single space between them. -/
def token (text : Text) : Text × Text :=
  let first := text.takeWhile isTokenChar
  let rest := text.dropWhile isTokenChar
  match rest with
  | ' ' :: more =>
    if date? first = some [] && more.head?.any Char.isDigit then
      (first ++ [' '] ++ more.takeWhile isTokenChar, more.dropWhile isTokenChar)
    else (first, rest)
  | _ => (first, rest)

end StylesheetBuild.Toml
