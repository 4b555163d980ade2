/-
Where a digest goes in an asset path.

An extension is a dot with a word of ASCII characters behind it at the very end of a path.

* **`insert_of_hasExtension`** — the digest goes in front of that dot, behind a hyphen;
* **`insert_of_not_hasExtension`** — a path without an extension stays as it is.
-/
import StylesheetBuild.Digest.Basic
import Mathlib.Data.List.TakeWhile

namespace StylesheetBuild.Digest

open Text (isWordChar)

/-- `path` is `stem` with a dot and the word `extension` behind it. -/
def HasExtension (path stem extension : Text) : Prop :=
  path = stem ++ '.' :: extension ∧ extension ≠ [] ∧ ∀ c ∈ extension, isWordChar c

theorem insert_of_hasExtension {path stem extension : Text}
    (h : HasExtension path stem extension) (digest : Text) :
    insert path digest = stem ++ '-' :: (digest ++ '.' :: extension) := by
  obtain ⟨rfl, hne, hword⟩ := h
  have hall : ∀ c ∈ extension.reverse, isWordChar c :=
    fun c hc => hword c (List.mem_reverse.mp hc)
  have hdot : ¬ isWordChar '.' := by decide
  have hreverse : (stem ++ '.' :: extension).reverse =
      extension.reverse ++ '.' :: stem.reverse := by
    simp
  rw [insert, hreverse, List.takeWhile_append_of_pos hall, List.dropWhile_append_of_pos hall,
    List.takeWhile_cons_of_neg hdot, List.dropWhile_cons_of_neg hdot]
  simp [hne]

theorem insert_of_not_hasExtension {path : Text}
    (h : ∀ stem extension, ¬ HasExtension path stem extension) (digest : Text) :
    insert path digest = path := by
  have hsplit := List.takeWhile_append_dropWhile (p := isWordChar) (l := path.reverse)
  have hword := List.all_takeWhile (p := isWordChar) (l := path.reverse)
  rw [insert]
  generalize path.reverse.takeWhile isWordChar = word at hsplit hword ⊢
  split
  · rename_i c before hd
    split
    · rename_i hdot
      simp only [Bool.and_eq_true, decide_eq_true_eq, bne_iff_ne] at hdot
      obtain ⟨rfl, hne⟩ := hdot
      rw [hd] at hsplit
      refine absurd ⟨?_, by simpa using hne, fun c hc => ?_⟩ (h before.reverse word.reverse)
      · rw [← List.reverse_reverse path, ← hsplit]
        simp
      · exact List.all_eq_true.mp hword c (List.mem_reverse.mp hc)
    · rfl
  · rfl

end StylesheetBuild.Digest
