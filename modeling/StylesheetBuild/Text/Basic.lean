/-
Texts and their pieces.

A text is a list of characters, so that every function on texts can be reasoned about by
induction on the list.  The pieces of a list are what lies between the occurrences of a
separator; paths use them on bytes and asset paths on characters.

* **`split_ne_nil`**: there is always a first piece.
* **`not_mem_of_mem_split`**: no piece contains the separator.
-/

namespace StylesheetBuild

/-- A text: its characters in order. -/
abbrev Text := List Char

namespace Text

/-- An ASCII letter, an ASCII digit or an underscore. -/
def isWordChar (c : Char) : Bool :=
  c.isAlphanum || c = '_'

def decimal (n : Nat) : Text :=
  Nat.toDigits 10 n

/-- The number of bytes that `text` takes in UTF-8. -/
def byteLength (text : Text) : Nat :=
  text.foldr (fun c size => c.utf8Size + size) 0

@[simp] theorem byteLength_nil : byteLength [] = 0 := rfl

@[simp] theorem byteLength_cons (c : Char) (text : Text) :
    byteLength (c :: text) = c.utf8Size + byteLength text := rfl

@[simp] theorem byteLength_append (s t : Text) :
    byteLength (s ++ t) = byteLength s + byteLength t := by
  induction s with
  | nil => simp
  | cons c s ih => simp [ih, Nat.add_assoc]

end Text

namespace Pieces

variable {α : Type} [DecidableEq α]

/-- The pieces of a list between the occurrences of `separator`; an empty list has one empty
piece. -/
def split (separator : α) : List α → List (List α)
  | [] => [[]]
  | a :: rest =>
    if a = separator then [] :: split separator rest
    else (split separator rest).modifyHead (a :: ·)

/-- The pieces put together again with `separator` between them. -/
def join (separator : α) (pieces : List (List α)) : List α :=
  [separator].intercalate pieces

theorem split_ne_nil (separator : α) (xs : List α) : split separator xs ≠ [] := by
  induction xs with
  | nil => simp [split]
  | cons a rest ih =>
    by_cases h : a = separator
    · simp [split, h]
    · cases hs : split separator rest with
      | nil => exact absurd hs ih
      | cons piece pieces => simp [split, h, hs]

theorem not_mem_of_mem_split {separator : α} {xs piece : List α}
    (h : piece ∈ split separator xs) : separator ∉ piece := by
  induction xs generalizing piece with
  | nil => simp_all [split]
  | cons a rest ih =>
    by_cases ha : a = separator
    · simp only [split, ha, if_true, List.mem_cons] at h
      rcases h with rfl | h
      · simp
      · exact ih h
    · cases hs : split separator rest with
      | nil => exact absurd hs (split_ne_nil separator rest)
      | cons first others =>
        simp only [split, ha, hs, if_false, List.modifyHead_cons, List.mem_cons] at h
        rcases h with rfl | h
        · have := @ih first (by simp [hs])
          simp [Ne.symm ha, this]
        · exact ih (by simp [hs, h])

end Pieces

end StylesheetBuild
