/-
The order of texts is the order of their bytes.

Texts are compared character by character, and names are listed in that order.  In UTF-8 the bytes
of a greater character are greater, too, however many bytes the two take.

* **`Utf8.codes_append_lt`** — the bytes of a smaller code point come before those of a greater one,
  whatever follows them;
* **`Utf8.encode_lt_encode_iff`** — so the bytes of texts are in the order of the texts.
-/
import Mathlib.Tactic.SplitIfs
import StylesheetBuild.Proofs.Text.Pieces

namespace StylesheetBuild.Utf8

/-- The first bytes decide unless the code points take as many bytes and agree on them. -/
theorem codes_append_lt {n m : Nat} (h : n < m) (s t : List Nat) :
    codes n ++ s < codes m ++ t := by
  unfold codes
  split_ifs <;>
    simp only [List.cons_append, List.nil_append, List.cons_lt_cons_iff] <;> omega

theorem map_toNat_encodeChar (c : Char) : (encodeChar c).map UInt8.toNat = codes c.toNat := by
  have hcodes : ∀ m ∈ codes c.toNat, (UInt8.toNat ∘ UInt8.ofNat) m = m :=
    fun m hm => toNat_ofNat (codes_lt hm)
  rw [encodeChar, List.map_map, List.map_congr_left hcodes, List.map_id']

/-- What keeps the order of lists does not change it. -/
theorem lt_of_map_lt {α β : Type} [LT α] [LT β] [Std.Irrefl (· < · : α → α → Prop)]
    [Std.Asymm (· < · : α → α → Prop)] [Std.Trichotomous (· < · : α → α → Prop)]
    [Std.Asymm (· < · : β → β → Prop)] {f : List α → List β} (hf : ∀ s t, s < t → f s < f t)
    {s t : List α} (h : f s < f t) : s < t := by
  refine not_not.mp fun hnot => ?_
  rcases List.le_iff_lt_or_eq.mp (List.not_lt.mp hnot) with hlt | rfl
  · exact List.lt_asymm (hf t s hlt) h
  · exact List.lt_asymm h h

theorem encodeChar_append_lt {c d : Char} (h : c < d) (s t : List UInt8) :
    encodeChar c ++ s < encodeChar d ++ t := by
  -- bytes are in the order of their numbers
  refine lt_of_map_lt (f := List.map UInt8.toNat)
    (fun _ _ => List.map_lt fun _ _ => UInt8.lt_iff_toNat_lt.mp) ?_
  rw [List.map_append, List.map_append, map_toNat_encodeChar, map_toNat_encodeChar]
  exact codes_append_lt h _ _

theorem encode_lt_of_lt {s t : Text} (h : s < t) : encode s < encode t := by
  induction s generalizing t with
  | nil =>
    cases t with
    | nil => exact absurd h (List.not_lt_nil [])
    | cons d t =>
      obtain ⟨b, bytes, hb⟩ := List.exists_cons_of_ne_nil (encodeChar_ne_nil d)
      rw [encode_cons, hb]
      exact List.nil_lt_cons _ _
  | cons c s ih =>
    cases t with
    | nil => exact absurd h (List.not_lt_nil (c :: s))
    | cons d t =>
      rw [encode_cons, encode_cons]
      rcases List.cons_lt_cons_iff.mp h with hlt | ⟨rfl, hlt⟩
      · exact encodeChar_append_lt hlt _ _
      · exact List.append_left_lt (ih hlt)

/-- The bytes of texts are in the order of the texts. -/
theorem encode_lt_encode_iff {s t : Text} : encode s < encode t ↔ s < t :=
  ⟨lt_of_map_lt fun _ _ => encode_lt_of_lt, encode_lt_of_lt⟩

end StylesheetBuild.Utf8
