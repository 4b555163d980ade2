/-
Enclosed arguments: a finding cut into the text in front of an argument, the argument, and the
text behind it.

* **`Enclosed.text_ofParts`**: the three parts make up the whole finding.
-/
import StylesheetBuild.Text.Occurrences

namespace StylesheetBuild

/-- An argument with the text that encloses it. -/
structure Enclosed where
  -- keyword, bracket, blanks and quote in front of the argument
  before : Text
  argument : Text
  -- quote, blanks and bracket behind the argument
  after : Text
deriving Repr, DecidableEq

namespace Enclosed

def text (e : Enclosed) : Text :=
  e.before ++ e.argument ++ e.after

/-- The answer of a recogniser that found `e` at the beginning of its text. -/
def finding (e : Enclosed) : Enclosed × Nat :=
  (e, e.text.length)

@[simp] theorem text_ofParts (before argument after : Text) :
    (Enclosed.mk before argument after).text = before ++ argument ++ after := rfl

@[simp] theorem length_text (e : Enclosed) :
    e.text.length = e.before.length + e.argument.length + e.after.length := by
  simp [text, Nat.add_assoc]

end Enclosed

end StylesheetBuild
