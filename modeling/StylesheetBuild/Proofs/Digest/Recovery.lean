/-
What a path with a digest in it says about the path and the digest.

* **`isDigest_content`** — a content digest is ten hexadecimal digits;
* **`eq_of_hasExtension`** — a path has one extension at most;
* **`insert_injective`** — where digests are equally long, the path can be told from what they are
  put into, and so can the digest if the path has an extension.

Design notes: a digest goes in front of an extension and is no part of it, so a path with a digest
in it still has the extension that it had.  This keeps it apart from every path without one.
-/
import Mathlib.Data.List.Basic
import StylesheetBuild.Proofs.Digest.Extension

namespace StylesheetBuild.Digest

open Text (isWordChar)

/-! ### Digests -/

def isHexDigit (c : Char) : Bool :=
  c.isDigit || ('a' ≤ c && c ≤ 'f') || ('A' ≤ c && c ≤ 'F')

/-- A digest as it goes into a path: hexadecimal digits, as many as a content digest has. -/
structure IsDigest (digest : Text) : Prop where
  length : digest.length = contentLength
  isHexDigit : ∀ c ∈ digest, isHexDigit c

theorem isHexDigit_hexDigit : ∀ n < 16, isHexDigit (hexDigit n) := by
  decide

/-- The content digest of an asset is a digest. -/
theorem isDigest_content (bytes : List UInt8) : IsDigest (content bytes) where
  length := length_content bytes
  isHexDigit c hc := by
    obtain ⟨b, -, hb⟩ := List.mem_flatMap.mp (List.mem_of_mem_take hc)
    have hlt := b.toNat_lt
    rcases List.mem_cons.mp hb with rfl | hb
    · exact isHexDigit_hexDigit _ (by omega)
    · rw [List.mem_singleton.mp hb]
      exact isHexDigit_hexDigit _ (Nat.mod_lt _ (by omega))

/-! ### Extensions -/

theorem takeWhile_reverse_of_hasExtension {path stem extension : Text}
    (h : HasExtension path stem extension) :
    path.reverse.takeWhile isWordChar = extension.reverse ∧
      path.reverse.dropWhile isWordChar = '.' :: stem.reverse := by
  obtain ⟨rfl, -, hword⟩ := h
  have hall : ∀ c ∈ extension.reverse, isWordChar c :=
    fun c hc => hword c (List.mem_reverse.mp hc)
  have hdot : ¬ isWordChar '.' := by decide
  have hreverse : (stem ++ '.' :: extension).reverse =
      extension.reverse ++ '.' :: stem.reverse := by
    simp
  rw [hreverse, List.takeWhile_append_of_pos hall, List.dropWhile_append_of_pos hall,
    List.takeWhile_cons_of_neg hdot, List.dropWhile_cons_of_neg hdot, List.append_nil]
  exact ⟨rfl, rfl⟩

/-- A path has one extension at most. -/
theorem eq_of_hasExtension {path stem extension stem' extension' : Text}
    (h : HasExtension path stem extension) (h' : HasExtension path stem' extension') :
    stem = stem' ∧ extension = extension' := by
  obtain ⟨htake, hdrop⟩ := takeWhile_reverse_of_hasExtension h
  obtain ⟨htake', hdrop'⟩ := takeWhile_reverse_of_hasExtension h'
  rw [htake] at htake'
  rw [hdrop, List.cons.injEq] at hdrop'
  exact ⟨List.reverse_injective hdrop'.2, List.reverse_injective htake'⟩

/-- A path keeps its extension when a digest is put into it. -/
theorem hasExtension_insert {path stem extension : Text} (h : HasExtension path stem extension)
    (digest : Text) : HasExtension (insert path digest) (stem ++ '-' :: digest) extension := by
  refine ⟨?_, h.2⟩
  rw [insert_of_hasExtension h]
  simp

/-- A character of a path with a digest in it comes from the path or from the digest, or it is the
hyphen between them. -/
theorem mem_insert {path digest : Text} {c : Char} (h : c ∈ insert path digest) :
    c ∈ path ∨ c ∈ digest ∨ c = '-' := by
  by_cases hext : ∃ stem extension, HasExtension path stem extension
  · obtain ⟨stem, extension, hext⟩ := hext
    rw [insert_of_hasExtension hext] at h
    rw [hext.1]
    simp only [List.mem_append, List.mem_cons] at h ⊢
    rcases h with h | h | h | h | h
    · exact .inl (.inl h)
    · exact .inr (.inr h)
    · exact .inr (.inl h)
    · exact .inl (.inr (.inl h))
    · exact .inl (.inr (.inr h))
  · have hnone : ∀ stem extension, ¬ HasExtension path stem extension :=
      fun stem extension h => hext ⟨stem, extension, h⟩
    rw [insert_of_not_hasExtension hnone] at h
    exact .inl h

/-! ### Telling a path from what a digest was put into -/

/-- A path with an extension and a digest in it is no path without an extension. -/
theorem insert_ne_of_hasExtension {path stem extension other digest digest' : Text}
    (h : HasExtension path stem extension)
    (hother : ∀ stem extension, ¬ HasExtension other stem extension) :
    insert path digest ≠ insert other digest' := by
  intro heq
  have hext := hasExtension_insert h digest
  rw [heq, insert_of_not_hasExtension hother] at hext
  exact hother _ _ hext

/-- The path can be told from what digests of one length are put into, and the digest too if the
path has an extension. -/
theorem insert_injective {path path' digest digest' : Text}
    (hlength : digest.length = digest'.length)
    (heq : insert path digest = insert path' digest') :
    path = path' ∧ ((∃ stem extension, HasExtension path stem extension) → digest = digest') := by
  by_cases hext : ∃ stem extension, HasExtension path stem extension
  · by_cases hext' : ∃ stem extension, HasExtension path' stem extension
    · obtain ⟨stem, extension, h⟩ := hext
      obtain ⟨stem', extension', h'⟩ := hext'
      have hinsert := hasExtension_insert h digest
      rw [heq] at hinsert
      obtain ⟨hstem, rfl⟩ := eq_of_hasExtension hinsert (hasExtension_insert h' digest')
      obtain ⟨rfl, htail⟩ := List.append_inj' hstem (by simp [hlength])
      refine ⟨by rw [h.1, h'.1], fun _ => ?_⟩
      exact (List.cons.inj htail).2
    · obtain ⟨stem, extension, h⟩ := hext
      exact absurd heq (insert_ne_of_hasExtension h fun stem extension h' => hext' ⟨_, _, h'⟩)
  · have hnone : ∀ stem extension, ¬ HasExtension path stem extension :=
      fun stem extension h => hext ⟨stem, extension, h⟩
    refine ⟨?_, fun h => absurd h hext⟩
    by_cases hext' : ∃ stem extension, HasExtension path' stem extension
    · obtain ⟨stem, extension, h'⟩ := hext'
      exact absurd heq.symm (insert_ne_of_hasExtension h' hnone)
    · rwa [insert_of_not_hasExtension hnone,
        insert_of_not_hasExtension fun stem extension h' => hext' ⟨_, _, h'⟩] at heq

end StylesheetBuild.Digest
