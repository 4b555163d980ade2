/-
Occurrences of a form in a text.

A recogniser looks at a text from its first character on and says what it found there and how
many characters that takes.  The occurrences in a text are found from left to right, and none
begins inside the one before it.

* **`occurrences_shift`**: the position count only shifts the answers.
-/
import StylesheetBuild.Text.Basic

namespace StylesheetBuild.Text

/-- What a recogniser says of the beginning of a text: a finding, and its length in characters,
or nothing. -/
abbrev Recogniser (α : Type) := Text → Option (α × Nat)

variable {α : Type}

/-- The findings of `recognise` in a text whose first character has the given position, each
with its position.  `skip` characters still belong to the finding before. -/
def occurrencesFrom (recognise : Recogniser α) (position skip : Nat) : Text → List (Nat × α)
  | [] => []
  | c :: rest =>
    match skip with
    | skip + 1 => occurrencesFrom recognise (position + 1) skip rest
    | 0 =>
      match recognise (c :: rest) with
      | none => occurrencesFrom recognise (position + 1) 0 rest
      | some (found, length) =>
        (position, found) :: occurrencesFrom recognise (position + 1) (length - 1) rest

/-- The findings of `recognise` in `text`, from left to right, none beginning inside the one
before, each with the number of characters in front of it. -/
def occurrences (recognise : Recogniser α) (text : Text) : List (Nat × α) :=
  occurrencesFrom recognise 0 0 text

theorem occurrences_shift (recognise : Recogniser α) (k position skip : Nat) (text : Text) :
    occurrencesFrom recognise (position + k) skip text =
      (occurrencesFrom recognise position skip text).map fun o => (o.1 + k, o.2) := by
  induction text generalizing position skip with
  | nil => rfl
  | cons c rest ih =>
    have hp : position + k + 1 = position + 1 + k := by omega
    cases skip with
    | succ skip => simp [occurrencesFrom, hp, ih]
    | zero =>
      cases hr : recognise (c :: rest) with
      | none => simp [occurrencesFrom, hr, hp, ih]
      | some found => simp [occurrencesFrom, hr, hp, ih]

end StylesheetBuild.Text
