/-
Blank characters: the Unicode property White_Space.
-/
import StylesheetBuild.Text.Basic

namespace StylesheetBuild.Text

/-- The code points with the property White_Space, as inclusive ranges. -/
def blankRanges : List (Nat × Nat) :=
  [(0x09, 0x0D), (0x20, 0x20), (0x85, 0x85), (0xA0, 0xA0), (0x1680, 0x1680),
   (0x2000, 0x200A), (0x2028, 0x2029), (0x202F, 0x202F), (0x205F, 0x205F), (0x3000, 0x3000)]

/-- Whether a character has the Unicode property White_Space. -/
def isBlank (c : Char) : Bool :=
  blankRanges.any fun (first, last) => first ≤ c.toNat && c.toNat ≤ last

def isSpaceOrTab (c : Char) : Bool :=
  c = ' ' || c = '\t'

def isQuote (c : Char) : Bool :=
  c = '\'' || c = '"'

theorem isBlank_of_isQuote {c : Char} (h : isQuote c) : isBlank c = false := by
  simp only [isQuote, Bool.or_eq_true, decide_eq_true_eq] at h
  rcases h with rfl | rfl <;> decide

def trimEnd (text : Text) : Text :=
  (text.reverse.dropWhile isBlank).reverse

end StylesheetBuild.Text
