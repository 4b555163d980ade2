/-
Environment variables in configuration texts.

A text that contains `${` has its variables replaced: `${NAME}`, `${NAME:-default}` and `$NAME`;
`$$` stands for a dollar sign.  Other texts stay as they are, dollar signs included.  What was
put in is not looked at again.

* **`expand_of_not_contains`**: a text without `${` stays as it is.
-/
import StylesheetBuild.Disk.Host
import StylesheetBuild.Text.Alphanumeric

namespace StylesheetBuild.Config

namespace Expansion

/-- A part of a text with variables. -/
inductive Piece where
  | literal (c : Char)
  -- a variable, and what takes its place if it is not set
  | named (name : Text) (fallback : Option Text)
deriving Repr, DecidableEq

/-- Whether a character may be part of the name of a variable without braces. -/
def isNameChar (c : Char) : Bool :=
  Text.isAlphanumeric c || c = '_'

/-- A text in front of its first `:-` and behind it; one at the very beginning is no separator. -/
def splitFallback : Text → Text × Option Text
  | [] => ([], none)
  | c :: rest =>
    let rec split : Text → Text × Option Text
      | ':' :: '-' :: fallback => ([], some fallback)
      | c :: rest => let (name, fallback) := split rest; (c :: name, fallback)
      | [] => ([], none)
    if [':', '-'].isPrefixOf (c :: rest) then (c :: rest, none) else split (c :: rest)

/-- What the text behind a dollar sign stands for, together with that sign, and how many
characters of it belong to that; nothing if the sign stands for itself. -/
def behindDollar? (text : Text) : Option (Piece × Nat) :=
  match text with
  | '$' :: _ => some (.literal '$', 1)
  | '\x7b' :: rest =>
    match rest.dropWhile (· != '\x7d') with
    | [] => none
    | _ =>
      let content := rest.takeWhile (· != '\x7d')
      let (name, fallback) := splitFallback content
      some (.named name fallback, content.length + 2)
  | _ =>
    let name := text.takeWhile isNameChar
    if name = [] then none else some (.named name none, name.length)

/-- The pieces of a text, of which the first `skip` characters belong to the piece before. -/
def piecesFrom (skip : Nat) : Text → List Piece
  | [] => []
  | c :: rest =>
    match skip with
    | skip + 1 => piecesFrom skip rest
    | 0 =>
      if c = '$' then
        match behindDollar? rest with
        | some (piece, length) => piece :: piecesFrom length rest
        | none => .literal c :: piecesFrom 0 rest
      else .literal c :: piecesFrom 0 rest

def pieces (text : Text) : List Piece :=
  piecesFrom 0 text

/-- What a piece stands for, or the name of the variable that is not set. -/
def Piece.value (lookup : Variables) : Piece → Except Text Text
  | literal c => .ok [c]
  | named name fallback =>
    match lookup name, fallback with
    | some value, _ => .ok value
    | none, some fallback => .ok fallback
    | none, none => .error name

def hasBraced : Text → Bool
  | '$' :: '\x7b' :: _ => true
  | _ :: rest => hasBraced rest
  | [] => false

end Expansion

open Expansion in
/-- A text with its variables replaced, or the name of the first one that is not set. -/
def expand (lookup : Variables) (text : Text) : Except Text Text :=
  if hasBraced text then
    ((pieces text).mapM (Piece.value lookup)).map List.flatten
  else .ok text

theorem expand_of_not_contains {lookup : Variables} {text : Text}
    (h : Expansion.hasBraced text = false) : expand lookup text = .ok text := by
  simp [expand, h]

end StylesheetBuild.Config
