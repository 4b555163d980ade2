/-
Pieces: how splitting meets appending, joining and encoding.

* **`Pieces.split_append_separator`** — a separator parts a list, and each side is split for itself;
* **`Pieces.split_join`** — pieces without separators are had back after joining;
* **`Pieces.mem_join`**, **`Pieces.mem_of_mem_split`** — neither brings anything in but separators;
* **`Pieces.exists_split_append`** — elsewhere, the last piece of one side and the first piece of
  the other become one;
* **`Utf8.split_encode`** — the pieces of an encoded text are the encoded pieces.

Design notes: splitting is `List.splitOn`, whose lemmas come from the library.  An ASCII byte
appears in UTF-8 only where its character does (`Utf8.mem_encodeChar_iff`), and paths are bytes
while asset paths are characters.
-/
import Mathlib.Data.List.Basic
import StylesheetBuild.Text.Utf8

namespace StylesheetBuild

namespace Pieces

variable {α : Type} [DecidableEq α] {separator : α}

theorem split_eq_splitOn (separator : α) (xs : List α) :
    split separator xs = xs.splitOn separator := by
  induction xs with
  | nil => rfl
  | cons a rest ih =>
    rw [split, List.splitOn_cons_eq_if_modifyHead, ih]
    by_cases h : a = separator
    · rw [if_pos h, if_pos (beq_iff_eq.mpr h)]
    · rw [if_neg h, if_neg (by simpa using h)]

theorem split_append_separator (xs ys : List α) :
    split separator (xs ++ separator :: ys) = split separator xs ++ split separator ys := by
  simp only [split_eq_splitOn, List.splitOn_append_cons_self]

theorem split_of_not_mem {xs : List α} (h : separator ∉ xs) : split separator xs = [xs] := by
  rw [split_eq_splitOn, List.splitOn_eq_singleton h]

theorem split_join {pieces : List (List α)} (hne : pieces ≠ [])
    (h : ∀ piece ∈ pieces, separator ∉ piece) :
    split separator (join separator pieces) = pieces := by
  rw [split_eq_splitOn, join, List.splitOn_intercalate separator h hne]

omit [DecidableEq α] in
/-- What is joined consists of the pieces and of separators. -/
theorem mem_join {pieces : List (List α)} {a : α} (h : a ∈ join separator pieces) :
    a = separator ∨ ∃ piece ∈ pieces, a ∈ piece := by
  induction pieces with
  | nil => exact absurd h (by simp [join])
  | cons piece pieces ih =>
    cases pieces with
    | nil => exact .inr ⟨piece, List.mem_cons_self, by simpa [join] using h⟩
    | cons piece' pieces =>
      rw [join, List.intercalate_cons_cons] at h
      rcases List.mem_append.mp h with h | h
      · rcases List.mem_append.mp h with h | h
        · exact .inr ⟨piece, List.mem_cons_self, h⟩
        · exact .inl (List.mem_singleton.mp h)
      · rcases ih h with h | ⟨p, hp, h⟩
        · exact .inl h
        · exact .inr ⟨p, List.mem_cons_of_mem piece hp, h⟩

/-- A piece is made of what was split. -/
theorem mem_of_mem_split {xs piece : List α} (hpiece : piece ∈ split separator xs) {a : α}
    (h : a ∈ piece) : a ∈ xs := by
  induction xs generalizing piece with
  | nil =>
    rw [split, List.mem_singleton] at hpiece
    exact absurd (hpiece ▸ h) List.not_mem_nil
  | cons b rest ih =>
    rw [split] at hpiece
    split_ifs at hpiece
    · rcases List.mem_cons.mp hpiece with rfl | hpiece
      · exact absurd h List.not_mem_nil
      · exact List.mem_cons_of_mem b (ih hpiece h)
    · obtain ⟨first, others, hrest⟩ := List.exists_cons_of_ne_nil (split_ne_nil separator rest)
      rw [hrest, List.modifyHead_cons] at hpiece
      rcases List.mem_cons.mp hpiece with rfl | hpiece
      · rcases List.mem_cons.mp h with rfl | h
        · exact List.mem_cons_self
        · exact List.mem_cons_of_mem b (ih (hrest ▸ List.mem_cons_self) h)
      · exact List.mem_cons_of_mem b (ih (hrest ▸ List.mem_cons_of_mem first hpiece) h)

/-- Where lists are put together, the last piece of the first and the first piece of the second
become one. -/
theorem exists_split_append (separator : α) (xs ys : List α) : ∃ before last first after,
    split separator xs = before ++ [last] ∧ split separator ys = first :: after ∧
      split separator (xs ++ ys) = before ++ (last ++ first) :: after := by
  obtain ⟨first, after, hys⟩ := List.exists_cons_of_ne_nil (split_ne_nil separator ys)
  induction xs with
  | nil => exact ⟨[], [], first, after, rfl, hys, hys⟩
  | cons a rest ih =>
    obtain ⟨before, last, first, after, hrest, hys, happend⟩ := ih
    by_cases h : a = separator
    · refine ⟨[] :: before, last, first, after, ?_, hys, ?_⟩
      · rw [split, if_pos h, hrest, List.cons_append]
      · rw [List.cons_append, split, if_pos h, happend, List.cons_append]
    · cases before with
      | nil =>
        refine ⟨[], a :: last, first, after, ?_, hys, ?_⟩
        · rw [split, if_neg h, hrest]
          rfl
        · rw [List.cons_append, split, if_neg h, happend]
          rfl
      | cons piece before =>
        refine ⟨(a :: piece) :: before, last, first, after, ?_, hys, ?_⟩
        · rw [split, if_neg h, hrest]
          rfl
        · rw [List.cons_append, split, if_neg h, happend]
          rfl

end Pieces

namespace Utf8

theorem encode_cons (c : Char) (text : Text) : encode (c :: text) = encodeChar c ++ encode text :=
  List.flatMap_cons

theorem encode_injective : Function.Injective encode := by
  intro s t h
  rw [← decodeLossy_encode s, h, decodeLossy_encode]

theorem le_of_mem_codes {n m : Nat} (h : m ∈ codes n) : m = n ∨ 0x80 ≤ m := by
  unfold codes at h
  split at h
  · exact .inl (List.mem_singleton.mp h)
  all_goals
    right
    grind

theorem codes_lt {c : Char} {m : Nat} (h : m ∈ codes c.toNat) : m < 256 := by
  have := toNat_bounds c
  unfold codes at h
  grind

/-- An ASCII byte appears in the bytes of its own character only. -/
theorem mem_encodeChar_iff {c d : Char} (hc : c.toNat < 0x80) :
    UInt8.ofNat c.toNat ∈ encodeChar d ↔ c = d := by
  constructor
  · intro h
    obtain ⟨m, hm, heq⟩ := List.mem_map.mp h
    have hm' : m = c.toNat := by
      rw [← toNat_ofNat (codes_lt hm), heq, toNat_ofNat (by omega)]
    rcases le_of_mem_codes hm with h' | h'
    · exact Char.toNat_inj.mp (hm'.symm.trans h')
    · omega
  · rintro rfl
    rw [encodeChar, codes, if_pos hc]
    exact List.mem_singleton.mpr rfl

theorem encodeChar_ascii {c : Char} (hc : c.toNat < 0x80) :
    encodeChar c = [UInt8.ofNat c.toNat] := by
  rw [encodeChar, codes, if_pos hc]
  rfl

theorem encodeChar_ne_nil (c : Char) : encodeChar c ≠ [] := by
  rw [encodeChar, codes]
  split_ifs <;> exact List.cons_ne_nil _ _

/-- The pieces of an encoded text are the encoded pieces. -/
theorem split_encode {c : Char} (hc : c.toNat < 0x80) (text : Text) :
    Pieces.split (UInt8.ofNat c.toNat) (encode text) = (Pieces.split c text).map encode := by
  induction text with
  | nil => rfl
  | cons d rest ih =>
    rw [encode_cons, Pieces.split]
    by_cases h : d = c
    · rw [if_pos h, h, encodeChar_ascii hc, List.singleton_append, Pieces.split, if_pos rfl, ih]
      rfl
    · -- the bytes of `d` go in front of the first piece
      have hnot : UInt8.ofNat c.toNat ∉ encodeChar d := by
        rw [mem_encodeChar_iff hc]
        exact fun heq => h heq.symm
      obtain ⟨before, last, first, after, hd, hrest, happend⟩ :=
        Pieces.exists_split_append (UInt8.ofNat c.toNat) (encodeChar d) (encode rest)
      rw [Pieces.split_of_not_mem hnot] at hd
      obtain ⟨rfl, hlast⟩ : [] = before ∧ [encodeChar d] = [last] := List.append_inj' hd rfl
      obtain rfl := List.head_eq_of_cons_eq hlast
      rw [if_neg h, happend]
      obtain ⟨piece, pieces, hpieces⟩ := List.exists_cons_of_ne_nil (Pieces.split_ne_nil c rest)
      rw [hrest, hpieces, List.map_cons, List.cons.injEq] at ih
      rw [hpieces, List.modifyHead_cons, List.map_cons, encode_cons, ih.1, ih.2]
      rfl

end Utf8

end StylesheetBuild
