/-
Strings of a TOML document, read behind their opening quotes.

A basic string knows escapes, a literal string does not.  Both may extend over several lines; then
a line break right behind the opening quotes is dropped, and in a basic string a backslash at the
end of a line swallows the blanks and line breaks that follow.
-/
import StylesheetBuild.Text.Blank

namespace StylesheetBuild.Toml

open Text (isSpaceOrTab)

/-- Whether a character may stand in a comment or a string of one line. -/
def isPlain (c : Char) : Bool :=
  c = '\t' || (0x20 ≤ c.toNat && c.toNat != 0x7F)

/-- Whether a text begins with a line break. -/
def startsLine : Text → Bool
  | '\n' :: _ => true
  | '\r' :: '\n' :: _ => true
  | _ => false

/-- The text behind a line break at its beginning, if there is one. -/
def dropLineBreak : Text → Text
  | '\n' :: rest => rest
  | '\r' :: '\n' :: rest => rest
  | text => text

def hexValue? (c : Char) : Option Nat :=
  if '0' ≤ c && c ≤ '9' then some (c.toNat - 0x30)
  else if 'a' ≤ c && c ≤ 'f' then some (c.toNat - 0x57)
  else if 'A' ≤ c && c ≤ 'F' then some (c.toNat - 0x37)
  else none

/-- The number that digits stand for in the given base. -/
def numberOf (base : Nat) (digits : List Nat) : Nat :=
  digits.foldl (fun n digit => n * base + digit) 0

/-- The character with the code point that hexadecimal digits stand for. -/
def charOfHex? (digits : Text) : Option Char := do
  let n := numberOf 16 (← digits.mapM hexValue?)
  if h : n.isValidChar then some (Char.ofNatAux n h) else none

/-- The character that a backslash and `c` stand for. -/
def shortEscape? (c : Char) : Option Char :=
  match c with
  | 'b' => some '\x08'
  | 't' => some '\t'
  | 'n' => some '\n'
  | 'f' => some '\x0c'
  | 'r' => some '\r'
  | 'e' => some '\x1b'
  | '"' => some '"'
  | '\\' => some '\\'
  | _ => none

/-- Puts a character in front of the string that was read. -/
def prepend (c : Char) : Option (Text × Text) → Option (Text × Text)
  | some (string, rest) => some (c :: string, rest)
  | none => none

/-- A basic string of one line up to its closing quote, and the text behind it. -/
def basic? : Text → Option (Text × Text)
  | [] => none
  | '"' :: rest => some ([], rest)
  | '\\' :: 'x' :: a :: b :: rest =>
    match charOfHex? [a, b] with
    | some c => prepend c (basic? rest)
    | none => none
  | '\\' :: 'u' :: a :: b :: c :: d :: rest =>
    match charOfHex? [a, b, c, d] with
    | some c => prepend c (basic? rest)
    | none => none
  | '\\' :: 'U' :: a :: b :: c :: d :: e :: f :: g :: h :: rest =>
    match charOfHex? [a, b, c, d, e, f, g, h] with
    | some c => prepend c (basic? rest)
    | none => none
  | '\\' :: c :: rest =>
    match shortEscape? c with
    | some c => prepend c (basic? rest)
    | none => none
  | c :: rest => if isPlain c && c != '\\' then prepend c (basic? rest) else none

/-- A literal string of one line up to its closing quote, and the text behind it. -/
def literal? : Text → Option (Text × Text)
  | [] => none
  | '\'' :: rest => some ([], rest)
  | c :: rest => if isPlain c then prepend c (literal? rest) else none

/-- A basic string of several lines up to its closing quotes, and the text behind it.  `trimming`
says whether blanks and line breaks are being swallowed. -/
def basicLines? (trimming : Bool) : Text → Option (Text × Text)
  | [] => none
  | '"' :: '"' :: '"' :: '"' :: '"' :: rest => some (['"', '"'], rest)
  | '"' :: '"' :: '"' :: '"' :: rest => some (['"'], rest)
  | '"' :: '"' :: '"' :: rest => some ([], rest)
  | '\r' :: '\n' :: rest =>
    if trimming then basicLines? true rest
    else prepend '\r' (prepend '\n' (basicLines? false rest))
  | '\n' :: rest =>
    if trimming then basicLines? true rest else prepend '\n' (basicLines? false rest)
  | '\\' :: 'x' :: a :: b :: rest =>
    match charOfHex? [a, b] with
    | some c => prepend c (basicLines? false rest)
    | none => none
  | '\\' :: 'u' :: a :: b :: c :: d :: rest =>
    match charOfHex? [a, b, c, d] with
    | some c => prepend c (basicLines? false rest)
    | none => none
  | '\\' :: 'U' :: a :: b :: c :: d :: e :: f :: g :: h :: rest =>
    match charOfHex? [a, b, c, d, e, f, g, h] with
    | some c => prepend c (basicLines? false rest)
    | none => none
  | '\\' :: c :: rest =>
    if startsLine ((c :: rest).dropWhile isSpaceOrTab) then basicLines? true rest
    else match shortEscape? c with
    | some c => prepend c (basicLines? false rest)
    | none => none
  | c :: rest =>
    if trimming && isSpaceOrTab c then basicLines? true rest
    else if isPlain c && c != '\\' then prepend c (basicLines? false rest)
    else none

/-- A literal string of several lines up to its closing quotes, and the text behind it. -/
def literalLines? : Text → Option (Text × Text)
  | [] => none
  | '\'' :: '\'' :: '\'' :: '\'' :: '\'' :: rest => some (['\'', '\''], rest)
  | '\'' :: '\'' :: '\'' :: '\'' :: rest => some (['\''], rest)
  | '\'' :: '\'' :: '\'' :: rest => some ([], rest)
  | '\r' :: '\n' :: rest => prepend '\r' (prepend '\n' (literalLines? rest))
  | '\n' :: rest => prepend '\n' (literalLines? rest)
  | c :: rest => if isPlain c then prepend c (literalLines? rest) else none

end StylesheetBuild.Toml
